import Rustd.Base.Text
import Rustd.UnitFile

/-!
# System call filters

`src/seccomp_policy.rs` compiles the `SystemCallFilter=` assignments of a service into one action
for each system call. An item of an assignment names a system call or a group, and a group names
further items. The compiled action of a system call is that of the last item that contains it;
where there is none, the implicit `@default` of an allow list decides, and then the default action.
Compilations that fail have no result here; the texts of the errors are left out.
-/

namespace Rustd.Seccomp

open Base UnitFile List Option Function

/-- The actions of `src/ffi/seccomp.rs:7`; an error has its number. -/
inductive Action where
  | allow
  | killProcess
  | errno (number : Nat)
  deriving DecidableEq

/-- The tables of groups and of error names, `group` and `errno_number`, and the two questions to
libseccomp, which can fail. -/
structure System where
  group : List Char → Option (List (List Char))
  errnoNumber : List Char → Option Nat
  resolveName : List Char → Option (Option Int)
  isKnown : Nat → Option Bool

variable (system : System) (negative : Action)

/-- `negative_action` of `src/seccomp_policy.rs:33`. -/
def negativeAction (value : List Char) : Option Action :=
  if value = [] || value = "kill".toList then some .killProcess
  else (system.errnoNumber value).map .errno

/-- The numbers up to `MAX_KNOWN_SYSCALL_NR`. -/
def knownRange : List Nat := List.range 8192

/-- `visit_filter_name`: the numbers for which the callback is run, and the levels that are left, 33
at the outset. -/
def visitFilterName (system : System) : Nat → List Char → Option (List Int)
  | 0, _ => none
  | levels + 1, name =>
    if name = "@__known_native__".toList then
      (knownRange.mapM fun nr =>
        (system.isKnown nr).map fun known => if known then [(nr : Int)] else []).map List.flatten
    else if name.head? = some '@' then
      (((system.group name).getD []).mapM (visitFilterName system levels)).map List.flatten
    else (system.resolveName name).map Option.toList

/-- `split_item` of `src/seccomp_policy.rs:195`. -/
def splitItem (item : List Char) : List Char × Option Action :=
  match rsplitOnce ':' item with
  | none => (item, none)
  | some (name, error) =>
    (name, if error = "kill".toList then some .killProcess
      else (system.errnoNumber error).map .errno)

/-- `SystemCallFilterAssignment`. -/
structure Assignment where
  invert : Bool
  items : List (List Char)

abbrev Rules := Int → Option Action

/-- The body of the loop of `apply_assignment`. -/
def applyItem (invert allowList : Bool) (negative : Action) (rules : Rules) (item : List Char) :
    Option Rules :=
  let (name, explicitAction) := splitItem system item
  if ':' ∈ item && explicitAction.isNone then some rules
  else if !invert && explicitAction.isSome then some rules
  else
    let insert := (invert != allowList) || (invert && allowList && explicitAction.isSome)
    let action := explicitAction.getD (if allowList then .allow else negative)
    let rule := if insert then some action else none
    (visitFilterName system 33 name).map
      (·.foldl (fun rules nr => update rules nr rule) rules)

/-- `apply_assignment` of `src/seccomp_policy.rs:207`. -/
def applyAssignment (allowList : Bool) (negative : Action) (rules : Rules)
    (assignment : Assignment) : Option Rules :=
  assignment.items.foldlM (applyItem system assignment.invert allowList negative) rules

structure Service where
  serviceType : ServiceType
  filter : List Assignment
  architectures : List (List Char)
  errorNumber : List Char

/-- `CompiledSyscallFilter` of `src/seccomp_policy.rs:19`. -/
structure CompiledSyscallFilter where
  rules : Rules
  defaultAction : Action

/-- The group that every allow list starts with. -/
def defaultGroup : List Char := "@default".toList

/-- The rules at the outset. -/
def baseline (allowList : Bool) (negative : Action) : Option Rules :=
  if allowList then
    applyAssignment system true negative (fun _ => none) ⟨false, [defaultGroup]⟩
  else some fun _ => none

variable (service : Service)

/-- The rule for `write`. -/
def allowWrite (allowList : Bool) (rules : Rules) : Option Rules :=
  if allowList && service.serviceType = .exec then
    (system.resolveName "write".toList).map fun found =>
      (found.map fun nr => update rules nr (some .allow)).getD rules
  else some rules

/-- `compile_syscall_filter` after its first test. -/
def compileWith (allowList : Bool) : Option CompiledSyscallFilter :=
  if service.architectures.any (· != "native".toList) then none
  else do
    let negative ← negativeAction system service.errorNumber
    let rules ← baseline system allowList negative
    let rules ← service.filter.foldlM (applyAssignment system allowList negative) rules
    let rules ← allowWrite system service allowList rules
    return ⟨rules, if allowList then negative else .allow⟩

/-- `compile_syscall_filter` of `src/seccomp_policy.rs:255`. -/
def compileSyscallFilter : Option (Option CompiledSyscallFilter) :=
  match service.filter with
  | [] => some none
  | first :: _ => (compileWith system service !first.invert).map some

/-- What the filter does with a system call. -/
def CompiledSyscallFilter.action (filter : CompiledSyscallFilter) (nr : Int) : Action :=
  (filter.rules nr).getD filter.defaultAction

/-! ### The last item decides -/

/-- A name stands for a system call. Groups may be nested to any depth. -/
inductive Expands (system : System) : List Char → Int → Prop
  | known {nr : Nat} : nr ∈ knownRange → system.isKnown nr = some true →
      Expands system "@__known_native__".toList nr
  | group {name item : List Char} {items : List (List Char)} {nr : Int} :
      name ≠ "@__known_native__".toList → name.head? = some '@' → system.group name = some items →
      item ∈ items → Expands system item nr → Expands system name nr
  | syscall {name : List Char} {nr : Int} : name.head? ≠ some '@' →
      system.resolveName name = some (some nr) → Expands system name nr

structure Item where
  name : List Char
  action : Action

/-- The item of a text. An action that is not known is invalid, and so is any action where the item
is not inverted; such an item says nothing. -/
def readItem (invert : Bool) (text : List Char) : Option Item :=
  let (name, explicitAction) := splitItem system text
  match explicitAction with
  | some action => if invert then some ⟨name, action⟩ else none
  | none => if ':' ∈ text then none else some ⟨name, if invert then negative else .allow⟩

def readItems (assignments : List Assignment) : List Item :=
  assignments.flatMap fun assignment =>
    assignment.items.flatMap fun text => (readItem system negative assignment.invert text).toList

open Classical in
/-- The last item that contains the system call. -/
noncomputable def lastItem (items : List Item) (nr : Int) : Option Item :=
  items.reverse.find? fun item => decide (Expands system item.name nr)

def Service.allowList : Bool := service.filter.head?.any (!·.invert)

/-- Whether the system call is the `write` of an `exec` service with an allow list. -/
def WriteAllowed (nr : Int) : Prop :=
  service.allowList = true ∧ service.serviceType = .exec ∧
    system.resolveName "write".toList = some (some nr)

open Classical in
/-- The action that the assignments ask for. -/
noncomputable def decided (negative : Action) (nr : Int) : Action :=
  if WriteAllowed system service nr then .allow
  else
    match lastItem system (readItems system negative service.filter) nr with
    | some item => item.action
    | none =>
      if service.allowList = true ∧ ¬Expands system defaultGroup nr then negative else .allow

/-- libseccomp answers every question. -/
def System.Answers : Prop :=
  (∀ name, (system.resolveName name).isSome) ∧ ∀ nr, (system.isKnown nr).isSome

/-- Groups hold groups of lower rank only. -/
def System.Ranked (rank : List Char → Nat) : Prop :=
  ∀ name items, system.group name = some items → ∀ item ∈ items, rank item < rank name

section

variable {system : System} {nr : Int}

private theorem mem_flatten_mapM {α β : Type} {f : α → Option (List β)} {P : α → Prop} {x : β}
    (hf : ∀ a fo, f a = some fo → (x ∈ fo ↔ P a)) :
    ∀ {l : List α} {lists : List (List β)}, l.mapM f = some lists →
      (x ∈ lists.flatten ↔ ∃ a ∈ l, P a)
  | [], lists, h => by
    obtain rfl : [] = lists := some.inj h
    simp
  | a :: l, lists, h => by
    rw [mapM_cons] at h
    obtain ⟨fi, hfr, h⟩ := bind_eq_some_iff.mp h
    obtain ⟨t, hrest, h⟩ := bind_eq_some_iff.mp h
    obtain rfl := some.inj h
    simp [mem_flatten_mapM hf hrest, hf a fi hfr]

private theorem isSome_mapM {α β : Type} {f : α → Option β} :
    ∀ {l : List α}, (∀ a ∈ l, (f a).isSome) → (l.mapM f).isSome
  | [], _ => rfl
  | a :: l, h => by
    obtain ⟨x, hfr⟩ := isSome_iff_exists.mp (h a (.head _))
    obtain ⟨t, hrest⟩ := isSome_iff_exists.mp (isSome_mapM fun b hb => h b (.tail _ hb))
    simp [mapM_cons, hfr, hrest]

private theorem mem_visitFilterName (levels : Nat) (u : List Char) (visited : List Int)
    (h : visitFilterName system levels u = some visited) : nr ∈ visited ↔ Expands system u nr := by
  induction levels generalizing u visited with
  | zero => cases h
  | succ levels ih =>
    rw [visitFilterName] at h
    split at h
    · next hname =>
      obtain ⟨lists, hli, rfl⟩ := map_eq_some_iff.mp h
      have hkw : ∀ n found, (system.isKnown n).map
          (fun known => if known then [(n : Int)] else []) = some found →
            (nr ∈ found ↔ system.isKnown n = some true ∧ nr = n) := by
        intro n found hfn
        obtain ⟨flag, hfl, rfl⟩ := map_eq_some_iff.mp hfn
        cases flag <;> simp [hfl]
      rw [mem_flatten_mapM hkw hli]
      constructor
      · rintro ⟨n, hmem, hfl, rfl⟩
        exact hname ▸ .known hmem hfl
      intro hepn
      cases hepn with
      | known hmem hfl => exact ⟨_, hmem, hfl, rfl⟩
      | group hne => exact absurd hname hne
      | syscall hat => exact absurd (by rw [hname]; rfl) hat
    · next hname =>
      split at h
      · next hat =>
        obtain ⟨lists, hli, rfl⟩ := map_eq_some_iff.mp h
        rw [mem_flatten_mapM ih hli]
        constructor
        · rintro ⟨item, hmem, hitm⟩
          cases hite : system.group u with
          | none => simp [hite] at hmem
          | some items =>
            rw [hite] at hmem
            exact .group hname hat hite hmem hitm
        · intro hepn
          cases hepn with
          | known => exact absurd rfl hname
          | group _ _ hite hmem hitm => exact ⟨_, by rwa [hite], hitm⟩
          | syscall hnot => exact absurd hat hnot
      · next hat =>
        obtain ⟨found, hfn, rfl⟩ := map_eq_some_iff.mp h
        rw [mem_toList]
        constructor
        · rintro rfl
          exact .syscall hat hfn
        intro hepn
        cases hepn with
        | known => exact absurd rfl hname
        | group _ hnot => exact absurd hnot hat
        | syscall _ hre => exact some.inj (hfn.symm.trans hre)

private theorem visitFilterName_isSome (han : system.Answers) {rank : List Char → Nat}
    (hra : system.Ranked rank) (l : Nat) (u : List Char) (h : rank u < l) :
    (visitFilterName system l u).isSome := by
  induction l generalizing u with
  | zero => omega
  | succ l ih =>
    rw [visitFilterName]
    split
    · rw [isSome_map]
      exact isSome_mapM fun nr _ => by rw [isSome_map]; exact han.2 nr
    split
    · rw [isSome_map]
      refine isSome_mapM fun a hitm => ih a ?_
      cases hite : system.group u with
      | none => simp [hite] at hitm
      | some i =>
        rw [hite] at hitm
        have := hra u i hite a hitm
        omega
    · rw [isSome_map]
      exact han.1 u

end

section

variable {system : System} {negative otherwise : Action} {rules rs rules' : Rules}
  {invert allowList : Bool}

def Decides (system : System) (otherwise : Action) (items : List Item) (rules rules' : Rules) :
    Prop :=
  ∀ nr, (rules' nr).getD otherwise =
    ((lastItem system items nr).map Item.action).getD ((rules nr).getD otherwise)

private theorem lastItem_append (xs l : List Item) (nr : Int) :
    lastItem system (xs ++ l) nr = (lastItem system l nr).or (lastItem system xs nr) := by
  rw [lastItem, reverse_append, find?_append]
  rfl

theorem Decides.append {rules'' : Rules}
    (h : Decides system otherwise xs rs rules') (h' : Decides system otherwise l rules' rules'') :
    Decides system otherwise (xs ++ l) rs rules'' := by
  intro nr
  rw [h' nr, h nr, lastItem_append]
  cases lastItem system l nr <;> rfl

private theorem decides_foldlM {α : Type} {s : Rules → α → Option Rules} {xs : α → List Item}
    (hsp : ∀ rs x rules', s rs x = some rules' →
      Decides system otherwise (xs x) rs rules') (l : List α)
    (h : l.foldlM s rs = some rules') : Decides system otherwise (l.flatMap xs) rs rules' := by
  induction l generalizing rs with
  | nil =>
    obtain rfl : rs = rules' := some.inj h
    exact fun _ => rfl
  | cons x l ih =>
    rw [foldlM_cons] at h
    obtain ⟨b, hx, hrest⟩ := bind_eq_some_iff.mp h
    exact (hsp rs x b hx).append (ih hrest)

private theorem foldl_update (r : Option Action) (v : List Int) (nr : Int) :
    (v.foldl (fun rs nr => update rs nr r) rs) nr =
      if nr ∈ v then r else rs nr := by
  induction v generalizing rs with
  | nil => simp
  | cons a v ih =>
    rw [foldl_cons, ih]
    by_cases hfr : nr = a
    · simp [hfr]
    · simp [hfr]

private theorem decides_visited (rs : Rules) (otherwise : Action) (r : Option Action)
    (h : visitFilterName system 33 u = some v) :
    Decides system otherwise [⟨u, r.getD otherwise⟩] rs
      (v.foldl (fun rs nr => update rs nr r) rs) := by
  intro nr
  have hmem : nr ∈ v ↔ Expands system u nr := mem_visitFilterName 33 u v h
  rw [foldl_update]
  by_cases hepn : Expands system u nr
  · simp [lastItem, hepn, hmem]
  · simp [lastItem, hepn, hmem]

private theorem decides_applyItem (rs : Rules) (a : List Char) (rules' : Rules)
    (h : applyItem system invert allowList negative rs a = some rules') :
    Decides system (if allowList then negative else .allow)
      (readItem system negative invert a).toList rs rules' := by
  unfold applyItem at h
  unfold readItem
  cases hex : (splitItem system a).2 with
  | none =>
    simp only [hex, isNone_none, isSome_none, Bool.and_true, Bool.and_false,
      Bool.or_false, decide_eq_true_eq, Bool.false_eq_true, if_false] at h ⊢
    split at h
    · next hcolon =>
      obtain rfl := some.inj h
      rw [if_pos hcolon]
      exact fun _ => rfl
    next hcolon =>
    obtain ⟨v, hvi, rfl⟩ := map_eq_some_iff.mp h
    rw [if_neg hcolon]
    have hde := decides_visited rs (if allowList then negative else .allow)
      (if invert != allowList then some (if allowList then .allow else negative) else none)
      hvi
    cases invert <;> cases allowList <;> exact hde
  | some ac =>
    simp only [hex, isNone_some, isSome_some, Bool.and_true, Bool.and_false,
      Bool.false_eq_true, if_false] at h ⊢
    cases invert with
    | false =>
      obtain rfl := some.inj h
      exact fun _ => rfl
    | true =>
      obtain ⟨v, hvi, rfl⟩ := map_eq_some_iff.mp h
      have hde := decides_visited rs (if allowList then negative else .allow) (some ac) hvi
      cases allowList <;> exact hde

private theorem decides_applyAssignment (rs : Rules) (a : Assignment) (rules' : Rules)
    (h : applyAssignment system allowList negative rs a = some rules') :
    Decides system (if allowList then negative else .allow)
      (a.items.flatMap fun s =>
        (readItem system negative a.invert s).toList) rs rules' :=
  decides_foldlM decides_applyItem _ h

open Classical in
private theorem action_baseline (h : baseline system allowList negative = some rules) (nr : Int) :
    (rules nr).getD (if allowList then negative else .allow) =
      if allowList = true ∧ ¬Expands system defaultGroup nr then negative else .allow := by
  unfold baseline at h
  cases allowList with
  | false =>
    obtain rfl := some.inj h
    rfl
  | true =>
    have hde : Decides system negative [⟨defaultGroup, .allow⟩] (fun _ => none) rules :=
      decides_applyAssignment _ _ _ h
    rw [if_pos rfl, hde nr]
    by_cases hepn : Expands system defaultGroup nr
    · simp [lastItem, hepn]
    · simp [lastItem, hepn]

open Classical in
private theorem action_allowWrite {service : Service}
    (h : allowWrite system service service.allowList rs = some rules') (nr : Int) :
    (rules' nr).getD otherwise =
      if WriteAllowed system service nr then .allow else (rs nr).getD otherwise := by
  unfold allowWrite at h
  unfold WriteAllowed
  split at h
  · next hexc =>
    obtain ⟨hal, htp⟩ : service.allowList = true ∧ service.serviceType = .exec := by
      simpa using hexc
    obtain ⟨f, hfn, rfl⟩ := map_eq_some_iff.mp h
    rw [hfn]
    cases f with
    | none => simp
    | some w =>
      by_cases hnr : nr = w
      · simp [hnr, hal, htp]
      · simp [hnr, Ne.symm hnr]
  · next hexc =>
    obtain rfl := some.inj h
    have hnot : ¬(service.allowList = true ∧ service.serviceType = .exec) := by simpa using hexc
    rw [if_neg fun h => hnot ⟨h.1, h.2.1⟩]

private theorem negativeAction_ne_allow (h : negativeAction system v = some negative) :
    negative ≠ .allow := by
  unfold negativeAction at h
  split at h
  · obtain rfl := some.inj h
    exact nofun
  · obtain ⟨n, -, rfl⟩ := map_eq_some_iff.mp h
    exact nofun

end

section

variable {system : System} {service : Service}

private theorem compileSyscallFilter_eq (h : service.filter ≠ []) :
    compileSyscallFilter system service =
      (compileWith system service service.allowList).map some := by
  unfold compileSyscallFilter Service.allowList
  split
  · contradiction
  · next hflt => simp [hflt]

private theorem stages_of_compileSyscallFilter
    (h : compileSyscallFilter system service = some (some f)) :
    ∃ negative i rs, negativeAction system service.errorNumber = some negative ∧
      baseline system service.allowList negative = some i ∧
      service.filter.foldlM (applyAssignment system service.allowList negative) i = some rs ∧
      allowWrite system service service.allowList rs = some f.rules ∧
      f.defaultAction = if service.allowList then negative else .allow := by
  have hflt : service.filter ≠ [] := by
    intro hempty
    simp [compileSyscallFilter, hempty] at h
  rw [compileSyscallFilter_eq hflt] at h
  obtain ⟨_, hc, hinj⟩ := map_eq_some_iff.mp h
  obtain rfl := some.inj hinj
  obtain ⟨-, h⟩ := ite_none_left_eq_some.mp hc
  obtain ⟨negative, hng, h⟩ := bind_eq_some_iff.mp h
  obtain ⟨i, hstr, h⟩ := bind_eq_some_iff.mp h
  obtain ⟨rs, hru, h⟩ := bind_eq_some_iff.mp h
  obtain ⟨rules', hwt, h⟩ := bind_eq_some_iff.mp h
  obtain rfl := some.inj h
  exact ⟨negative, i, rs, hng, hstr, hru, hwt, rfl⟩

private theorem isSome_foldlM {α β : Type} {s : β → α → Option β}
    (hsp : ∀ b a, (s b a).isSome) (l : List α) (b : β) : (l.foldlM s b).isSome := by
  induction l generalizing b with
  | nil => rfl
  | cons a l ih =>
    obtain ⟨n, hnx⟩ := isSome_iff_exists.mp (hsp b a)
    simpa [foldlM_cons, hnx] using ih n

variable {rank : List Char → Nat}

private theorem applyAssignment_isSome (han : system.Answers) (hra : system.Ranked rank)
    (hdp : ∀ u, rank u ≤ 32) (allowList : Bool) (negative : Action) (rs : Rules)
    (a : Assignment) : (applyAssignment system allowList negative rs a).isSome := by
  refine isSome_foldlM (fun rs i => ?_) _ _
  unfold applyItem
  simp only
  split
  · rfl
  split
  · rfl
  · rw [isSome_map]
    exact visitFilterName_isSome han hra 33 _ (Nat.lt_succ_of_le (hdp _))

private theorem compileSyscallFilter_isSome (han : system.Answers) (hra : system.Ranked rank)
    (hdp : ∀ u, rank u ≤ 32) (ha : ∀ a ∈ service.architectures, a = "native".toList)
    (hng : (negativeAction system service.errorNumber).isSome) (h : service.filter ≠ []) :
    ∃ f, compileSyscallFilter system service = some (some f) := by
  obtain ⟨negative, hng⟩ := isSome_iff_exists.mp hng
  have hsp := applyAssignment_isSome han hra hdp service.allowList negative
  have hstr : (baseline system service.allowList negative).isSome := by
    unfold baseline
    split
    · exact applyAssignment_isSome han hra hdp ..
    · rfl
  obtain ⟨i, hstr⟩ := isSome_iff_exists.mp hstr
  obtain ⟨rs, hru⟩ := isSome_iff_exists.mp (isSome_foldlM hsp service.filter i)
  have hwt : (allowWrite system service service.allowList rs).isSome := by
    unfold allowWrite
    split
    · rw [isSome_map]
      exact han.1 _
    · rfl
  obtain ⟨rules', hwt⟩ := isSome_iff_exists.mp hwt
  have hna : ¬service.architectures.any (· != "native".toList) = true := by
    simpa using ha
  rw [compileSyscallFilter_eq h, compileWith, if_neg hna]
  simp [hng, hstr, hru, hwt]

end

/-- The compiled action of every system call is the one that the last item containing it decides,
and in an allow list no other system call is allowed. The compilation succeeds where libseccomp
answers, the error is known and the groups are not nested deeper than 32 times. -/
theorem compiled_action_decided (system : System) (service : Service) :
    (∀ filter, compileSyscallFilter system service = some (some filter) →
      ∃ negative, negativeAction system service.errorNumber = some negative ∧ ∀ nr,
        filter.action nr = decided system service negative nr ∧
        (service.allowList = true → filter.action nr = .allow →
          WriteAllowed system service nr ∨
          (∃ item, lastItem system (readItems system negative service.filter) nr = some item ∧
            item.action = .allow) ∨
          (lastItem system (readItems system negative service.filter) nr = none ∧
            Expands system defaultGroup nr))) ∧
    (service.filter ≠ [] → (∀ text ∈ service.architectures, text = "native".toList) →
      (negativeAction system service.errorNumber).isSome → system.Answers →
      (∃ rank, system.Ranked rank ∧ ∀ name, rank name ≤ 32) →
      ∃ filter, compileSyscallFilter system service = some (some filter)) := by
  refine ⟨fun filter h => ?_, fun hflt har hng han ⟨_, hra, hdp⟩ =>
    compileSyscallFilter_isSome han hra hdp har hng hflt⟩
  obtain ⟨negative, i, rules, hng, hstr, hru, hwt, hot⟩ := stages_of_compileSyscallFilter h
  refine ⟨negative, hng, fun nr => ?_⟩
  have hde : filter.action nr = decided system service negative nr := by
    have hite := decides_foldlM decides_applyAssignment _ hru nr
    rw [CompiledSyscallFilter.action, hot, action_allowWrite hwt, hite, action_baseline hstr]
    rw [decided, readItems]
    cases lastItem system _ nr <;> rfl
  refine ⟨hde, fun hal hac => ?_⟩
  rw [hde, decided] at hac
  split at hac
  · next hallowed => exact .inl hallowed
  cases hls : lastItem system (readItems system negative service.filter) nr with
  | some item =>
    rw [hls] at hac
    exact .inr (.inl ⟨item, rfl, hac⟩)
  | none =>
    refine .inr (.inr ⟨rfl, by_contra fun hepn => negativeAction_ne_allow hng ?_⟩)
    rw [hls] at hac
    exact (if_pos ⟨hal, hepn⟩).symm.trans hac

/-- A table with a group inside a group. -/
def nested : System where
  group name :=
    if name = "@a".toList then some ["@b".toList, "read".toList]
    else if name = "@b".toList then some ["write".toList]
    else none
  errnoNumber _ := none
  resolveName name :=
    some (if name = "read".toList then some 0 else if name = "write".toList then some 1 else none)
  isKnown _ := some false

def nestedRank (name : List Char) : Nat :=
  if name = "@a".toList then 2 else if name = "@b".toList then 1 else 0

/-- `SystemCallFilter=@a` and then `~write`. -/
def nestedService : Service where
  serviceType := .simple
  filter := [⟨false, ["@a".toList]⟩, ⟨true, ["write".toList]⟩]
  architectures := ["native".toList]
  errorNumber := []

theorem compiled_action_decided_nested :
    ∃ filter, compileSyscallFilter nested nestedService = some (some filter) ∧
      ∀ nr, filter.action nr = decided nested nestedService .killProcess nr := by
  obtain ⟨hdecided, hcompiles⟩ := compiled_action_decided nested nestedService
  have hranked : nested.Ranked nestedRank := by
    intro name items hitems item hitem
    simp only [nested] at hitems
    split at hitems
    · next hname =>
      obtain rfl := some.inj hitems
      subst hname
      revert item
      decide
    split at hitems
    · next hname =>
      obtain rfl := some.inj hitems
      subst hname
      revert item
      decide
    · cases hitems
  have hrank : ∀ name, nestedRank name ≤ 32 := by
    intro name
    unfold nestedRank
    split_ifs <;> decide
  obtain ⟨filter, hfilter⟩ := hcompiles (by decide) (by decide) rfl
    ⟨fun _ => rfl, fun _ => rfl⟩ ⟨nestedRank, hranked, hrank⟩
  obtain ⟨negative, hnegative, haction⟩ := hdecided filter hfilter
  obtain rfl : Action.killProcess = negative := some.inj hnegative
  exact ⟨filter, hfilter, fun nr => (haction nr).1⟩

end Rustd.Seccomp
