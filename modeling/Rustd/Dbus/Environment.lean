import Rustd.Base.Text

/-!
# The environment of the manager

`src/dbus/manager_iface.rs`: clients set and unset variables in a layer over the variables that the
manager was started with.
-/

namespace Rustd.Dbus.Environment

open Base List

abbrev Entries : Type := List (List Char)

/-- `environment_key`: the text before the first `=`. -/
def environmentKey (entry : List Char) : List Char := entry.takeWhile (· != '=')

/-- One turn of the loop of `merge_environment_entries`. -/
def mergeEntry : Entries → List Char → Entries
  | [], assignment => [assignment]
  | entry :: merged, assignment =>
    if environmentKey entry = environmentKey assignment then assignment :: merged
    else entry :: mergeEntry merged assignment

/-- `merge_environment_entries` of `src/dbus/manager_iface.rs:206`. -/
def mergeEnvironmentEntries (base plus : Entries) : Entries :=
  plus.foldl mergeEntry base

/-- What a pattern of `delete_environment_entries` removes: the assignment it is, or those to the
name it is. -/
def Matches (pattern entry : List Char) : Prop :=
  entry = pattern ∨ '=' ∉ pattern ∧ pattern ++ ['='] <+: entry

instance (pattern entry : List Char) : Decidable (Matches pattern entry) :=
  inferInstanceAs (Decidable (_ ∨ _))

/-- `delete_environment_entries` of `src/dbus/manager_iface.rs:5710`. -/
def deleteEnvironmentEntries (entries patterns : Entries) : Entries :=
  entries.filter fun entry => patterns.all fun pattern => ¬Matches pattern entry

/-- `ManagerEnvironmentState` of `src/dbus/manager_iface.rs:116`. -/
structure ManagerEnvironmentState where
  baseline : Entries
  client : Entries

/-- Part of `ManagerEnvironmentState::modify`, `src/dbus/manager_iface.rs:168`. -/
structure Update where
  minus : Entries
  plus : Entries

variable (argMax : Nat)

/-- `environment_name_is_valid` of `src/dbus/manager_iface.rs:5669`. -/
def environmentNameIsValid (name : List Char) : Bool :=
  name ≠ [] && (utf8 name).length ≤ argMax - 2 && !name.head?.any Char.isDigit &&
    name.all fun c => c.isAlphanum || c == '_'

/-- `environment_assignment_is_valid` of `src/dbus/manager_iface.rs:5680`. -/
def environmentAssignmentIsValid (assignment : List Char) : Bool :=
  (splitOnce '=' assignment).any fun (name, value) => environmentNameIsValid argMax name &&
    (utf8 value).length ≤ argMax - 3 && (utf8 assignment).length ≤ argMax - 1

/-- The checks before an update. -/
structure Update.Valid (u : Update) : Prop where
  plus : ∀ a ∈ u.plus, environmentAssignmentIsValid argMax a = true
  names : (u.plus.map environmentKey).Nodup
  minus : ∀ p ∈ u.minus, environmentAssignmentIsValid argMax p = true ∨
    environmentNameIsValid argMax p = true
  patterns : u.minus.Nodup

namespace ManagerEnvironmentState

/-- `ManagerEnvironmentState::effective` of `src/dbus/manager_iface.rs:164`. -/
def effective (s : ManagerEnvironmentState) : Entries :=
  mergeEnvironmentEntries s.baseline s.client

/-- `ManagerEnvironmentState::modify` of `src/dbus/manager_iface.rs:168`. -/
def modify (s : ManagerEnvironmentState) (u : Update) : ManagerEnvironmentState :=
  { s with client := mergeEnvironmentEntries (deleteEnvironmentEntries s.client u.minus) u.plus }

end ManagerEnvironmentState

/-- The state after updates, the latest first. -/
def after (baseline : Entries) : List Update → ManagerEnvironmentState
  | [] => ⟨baseline, []⟩
  | u :: earlier => (after baseline earlier).modify u

/-- An assignment that no later one replaced and no later pattern matched. -/
def Stands : List Update → List Char → Prop
  | [], _ => False
  | u :: earlier, e => e ∈ u.plus ∨ Stands earlier e ∧
    (∀ a ∈ u.plus, environmentKey a ≠ environmentKey e) ∧ ∀ p ∈ u.minus, ¬Matches p e

variable {argMax} {base plus : Entries} {a : List Char}

/-- An assignment takes the place of the one to its name. -/
theorem mem_mergeEntry (h : (base.map environmentKey).Nodup) :
    ((mergeEntry base a).map environmentKey).Nodup ∧ ∀ e, e ∈ mergeEntry base a ↔
      e = a ∨ e ∈ base ∧ environmentKey e ≠ environmentKey a := by
  induction base with
  | nil => simp [mergeEntry]
  | cons b base ih =>
    obtain ⟨hb, h⟩ := nodup_cons.mp h
    obtain ⟨hnd, hmem⟩ := ih h
    rw [mergeEntry]
    split
    · next heq =>
      have hne : ∀ e ∈ base, environmentKey e ≠ environmentKey a :=
        fun e he hk => hb (heq ▸ hk ▸ mem_map_of_mem he)
      exact ⟨nodup_cons.mpr ⟨heq ▸ hb, h⟩, by grind⟩
    · exact ⟨nodup_cons.mpr ⟨by grind, hnd⟩, by grind⟩

/-- Names stay distinct, and an assignment stands unless another one to its name was merged. -/
theorem mem_mergeEnvironmentEntries (h : (base.map environmentKey).Nodup)
    (hp : (plus.map environmentKey).Nodup) :
    ((mergeEnvironmentEntries base plus).map environmentKey).Nodup ∧
      ∀ e, e ∈ mergeEnvironmentEntries base plus ↔
        e ∈ plus ∨ e ∈ base ∧ ∀ a ∈ plus, environmentKey a ≠ environmentKey e := by
  induction plus generalizing base with
  | nil => exact ⟨h, by simp [mergeEnvironmentEntries]⟩
  | cons a plus ih =>
    obtain ⟨ha, hp⟩ := nodup_cons.mp hp
    obtain ⟨hm, hme⟩ := mem_mergeEntry (a := a) h
    obtain ⟨hnd, hmem⟩ := ih hm hp
    refine ⟨hnd, fun e => (hmem e).trans ?_⟩
    have hne : ∀ b ∈ plus, environmentKey b ≠ environmentKey a :=
      fun b hb he => ha (he ▸ mem_map_of_mem hb)
    grind

private theorem mem_client (baseline : Entries) {history : List Update}
    (h : ∀ u ∈ history, u.Valid argMax) :
    ((after baseline history).client.map environmentKey).Nodup ∧
      ∀ e, e ∈ (after baseline history).client ↔ Stands history e := by
  induction history with
  | nil => exact ⟨nodup_nil, by simp [after, Stands]⟩
  | cons u history ih =>
    obtain ⟨hu, h⟩ := forall_mem_cons.mp h
    obtain ⟨hnd, hmem⟩ := ih h
    have hdel : ((deleteEnvironmentEntries (after baseline history).client u.minus).map
        environmentKey).Nodup := hnd.sublist (filter_sublist.map environmentKey)
    obtain ⟨hnd, hm⟩ := mem_mergeEnvironmentEntries hdel hu.names
    refine ⟨hnd, fun e => (hm e).trans ?_⟩
    simp only [deleteEnvironmentEntries, mem_filter, hmem, Stands, all_eq_true, decide_eq_true_eq]
    tauto

private theorem baseline_after (baseline : Entries) (history : List Update) :
    (after baseline history).baseline = baseline := by
  induction history with
  | nil => rfl
  | cons u history ih => exact ih

/-- After any history of valid updates, the environment of the manager assigns no name twice, and
holds what the updates leave standing and the assignments of the baseline to other names. -/
theorem effective_environment {baseline : Entries} {history : List Update}
    (hb : (baseline.map environmentKey).Nodup) (h : ∀ u ∈ history, u.Valid argMax) :
    ((after baseline history).effective.map environmentKey).Nodup ∧
      ∀ e, e ∈ (after baseline history).effective ↔
        Stands history e ∨ e ∈ baseline ∧
          ∀ a, Stands history a → environmentKey a ≠ environmentKey e := by
  obtain ⟨hnd, hmem⟩ := mem_client baseline h
  have hm := mem_mergeEnvironmentEntries hb hnd
  simpa only [ManagerEnvironmentState.effective, baseline_after, hmem] using hm

theorem effective_environment_unset :
    "A=1".toList ∈ (after ["A=1".toList] [⟨[['A']], []⟩, ⟨[], ["A=2".toList]⟩]).effective :=
  ((@effective_environment 9 _ _ (by decide) (forall_mem_cons.mpr
    ⟨⟨by simp, by simp, by simp; decide, by simp⟩, forall_mem_singleton.mpr
      ⟨by simp; decide, by simp, by simp, by simp⟩⟩)).2 _).mpr
    (.inr ⟨by simp, by simp [Stands, Matches]⟩)

end Rustd.Dbus.Environment
