import Rustd.Unit.PathStem

/-!
# Slices

`src/unit/loader.rs`: the name of a slice has the names of the slices above it, with dashes between
them. All slices are below `-.slice`.
-/

namespace Rustd.Unit

open Base List Relation

def sliceSuffix : List Char := ".slice".toList

def rootSlice : List Char := "-.slice".toList

/-- The checks of `slice_parent_name`. -/
def SliceStem (stem : List Char) : Prop :=
  stem ≠ [] ∧ '@' ∉ stem ∧ stem.head? ≠ some '-' ∧ stem.getLast? ≠ some '-' ∧
    [] ∉ stem.splitOn '-' ∧ validEscapedUnitStem stem = true

instance (stem : List Char) : Decidable (SliceStem stem) :=
  inferInstanceAs (Decidable (_ ∧ _ ∧ _ ∧ _ ∧ _ ∧ _))

/-- `slice_parent_name` of `src/unit/loader.rs:965`. -/
def sliceParentName (name : List Char) : Except String (Option (List Char)) :=
  let stem := name.take (name.length - sliceSuffix.length)
  if ¬sliceSuffix <:+ name then .error s!"invalid slice unit name '{String.ofList name}'"
  else if stem = ['-'] then .ok none
  else if ¬SliceStem stem then .error s!"invalid slice unit name '{String.ofList name}'"
  else .ok (some ((rsplitOnce '-' stem).elim rootSlice fun (parent, _) => parent ++ sliceSuffix))

/-- What `finalize_slice` reads and writes of a unit. -/
structure SliceUnit where
  requires : List (List Char)
  after : List (List Char)
  before : List (List Char)
  conflicts : List (List Char)
  defaultDependencies : Bool
  description : List Char

/-- `add_unique` of `src/unit/loader.rs:747`. -/
def addUnique (values : List (List Char)) (value : List Char) : List (List Char) :=
  if values.contains value then values else values ++ [value]

/-- What was attached before an error stays. -/
def finalizeSlice (unit : SliceUnit) (name : List Char) : Except String Unit × SliceUnit :=
  match sliceParentName name with
  | .error e => (.error e, unit)
  | .ok parent =>
    let unit := { unit with
      requires := parent.elim unit.requires (addUnique unit.requires)
      after := parent.elim unit.after (addUnique unit.after) }
    let shutdown := "shutdown.target".toList
    let unit := if unit.defaultDependencies then { unit with
        before := addUnique unit.before shutdown
        conflicts := addUnique unit.conflicts shutdown }
      else unit
    if unit.description = [] then
      match pathFromUnitName name sliceSuffix with
      | .ok path => (.ok (), { unit with description := "Slice ".toList ++ path })
      | .error e => (.error e, unit)
    else (.ok (), unit)

def Parent (name parent : List Char) : Prop := sliceParentName name = .ok (some parent)

variable {stem above last name : List Char}

private theorem escape_of_validBytes (h : validBytes ('\\'.toUInt8 :: l) = true) :
    ∃ high low rest, l = 'x'.toUInt8 :: high :: low :: rest ∧ (toDigit high).isSome = true ∧
      (toDigit low).isSome = true ∧ validBytes rest = true := by
  match l with
  | [] | [_] | [_, _] => exact absurd (all_eq_true.mp h _ mem_cons_self) (by decide)
  | x :: high :: low :: rest =>
    simp only [validBytes, if_true, Bool.and_eq_true, beq_iff_eq] at h
    obtain ⟨⟨⟨rfl, hh⟩, hl⟩, hr⟩ := h
    exact ⟨high, low, rest, rfl, hh, hl, hr⟩

/-- A dash is in no escape, so that the bytes before it are valid on their own. -/
theorem validBytes_of_append (h : validBytes (a ++ '-'.toUInt8 :: b) = true) :
    validBytes a = true := by
  match a with
  | [] => rfl
  | byte :: a =>
    by_cases hb : byte = '\\'.toUInt8
    · subst hb
      obtain ⟨high, low, rest, hl, hh, hlo, hr⟩ := escape_of_validBytes h
      have hd : (toDigit '-'.toUInt8).isSome = false := by decide
      match a with
      | [] => exact absurd (cons.inj hl).1 (by decide)
      | [x] => simp_all
      | [x, y] => simp_all
      | x :: y :: z :: a =>
        cases hl
        simp [validBytes, hh, hlo, validBytes_of_append hr]
    · rw [cons_append, validBytes_cons hb, Bool.and_eq_true] at h
      rw [validBytes_cons hb, Bool.and_eq_true]
      exact ⟨h.1, validBytes_of_append h.2⟩

theorem SliceStem.parent (h : SliceStem (above ++ '-' :: last)) : SliceStem above := by
  obtain ⟨-, hat, hhd, -, hsp, hv⟩ := h
  rw [splitOn_append_cons_self, mem_append, not_or] at hsp
  have hne : above ≠ [] := by
    rintro rfl
    exact hsp.1 (by simp)
  refine ⟨hne, fun hm => hat (mem_append_left _ hm), ?_, ?_, hsp.1, ?_⟩
  · rwa [head?_append_of_ne_nil _ hne] at hhd
  · intro hl
    obtain ⟨p, rfl⟩ := getLast?_eq_some_iff.mp hl
    rw [splitOn_append_cons_self] at hsp
    exact hsp.1 (mem_append_right _ (by simp))
  · rw [validEscapedUnitStem, utf8, flatMap_append] at hv
    exact validBytes_of_append hv

private theorem take_sliceSuffix (stem : List Char) :
    (stem ++ sliceSuffix).take ((stem ++ sliceSuffix).length - sliceSuffix.length) = stem := by
  rw [length_append, Nat.add_sub_cancel, take_left']
  rfl

private theorem sliceParentName_stem (h : SliceStem stem) : sliceParentName (stem ++ sliceSuffix) =
    .ok (some ((rsplitOnce '-' stem).elim rootSlice fun (p, _) => p ++ sliceSuffix)) := by
  have hne : stem ≠ ['-'] := by
    rintro rfl
    exact h.2.2.1 rfl
  simp only [sliceParentName, take_sliceSuffix, suffix_append, not_true, if_false, if_neg hne,
    not_not.mpr h]

/-- Every valid name but that of the root has a stem that passes the checks. -/
theorem stem_of_valid (h : sliceParentName name = .ok p) :
    name = rootSlice ∨ ∃ stem, SliceStem stem ∧ name = stem ++ sliceSuffix := by
  simp only [sliceParentName] at h
  split_ifs at h with hs hr hv
  · obtain ⟨stem, rfl⟩ := hs
    rw [take_sliceSuffix] at hr
    exact .inl (hr ▸ rfl)
  · obtain ⟨stem, rfl⟩ := hs
    rw [take_sliceSuffix] at hv
    exact .inr ⟨stem, hv, rfl⟩

private theorem parent_cases (h : SliceStem stem) : ∃ parent, Parent (stem ++ sliceSuffix) parent ∧
    (parent = rootSlice ∧ '-' ∉ stem ∨ ∃ above last, SliceStem above ∧
      stem = above ++ '-' :: last ∧ parent = above ++ sliceSuffix) := by
  refine ⟨_, sliceParentName_stem h, ?_⟩
  cases hr : rsplitOnce '-' stem with
  | none => exact .inl ⟨rfl, rsplitOnce_eq_none.mp hr⟩
  | some parts =>
    obtain ⟨-, rfl⟩ := rsplitOnce_eq_some.mp hr
    exact .inr ⟨parts.1, parts.2, h.parent, rfl, rfl⟩

private theorem reaches_root (h : SliceStem stem) (hn : stem.length ≤ n) :
    TransGen Parent (stem ++ sliceSuffix) rootSlice := by
  induction n generalizing stem with
  | zero => exact absurd (length_eq_zero_iff.mp (Nat.le_zero.mp hn)) h.1
  | succ n ih =>
    obtain ⟨parent, hp, ⟨rfl, -⟩ | ⟨above, last, ha, rfl, rfl⟩⟩ := parent_cases h
    · exact .single hp
    · rw [length_append, length_cons] at hn
      exact .head hp (ih ha (by omega))

end Rustd.Unit
