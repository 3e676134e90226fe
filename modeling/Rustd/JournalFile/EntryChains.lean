import Rustd.JournalFile.Chains

/-!
# The lists of entries in a journal file

Every data object lists the entries that refer to it: the first one in its own structure, the
others in a chain of arrays. The list of all entries is such a chain, from the header. The chains
share the links between arrays, but an array belongs to one chain.
-/

namespace Rustd.JournalFile

open Base List Function

variable {L : Links} {ks : List Kind} {k : Kind} {p q d owner o : Nat} {payload pay : List UInt8}

private theorem arrayOf_self (o a : Nat) : arrayOf o (.array o a) = true :=
  beq_self_eq_true _

variable {h h' : JournalFileHeader} {o' he : Nat} {L' : Links}

theorem arrayOf_other (a : Nat) (h : o ≠ o') :
    arrayOf o' (.array o a) = false := beq_eq_false_iff_ne.mpr h

section

variable {n : Nat → Nat} {he : Nat}

private theorem linked_concat_array (h : Linked n he (select (arrayOf o) ks))
    (hend : n (arenaEnd ks) = 0) (hhd : he ≠ 0) (a : Nat) :
    Linked (update n ((select (arrayOf o) ks).getLastD 0) (arenaEnd ks)) he
      (select (arrayOf o) (ks ++ [.array o a])) := by
  have hnil : select (arrayOf o) ks ≠ [] := fun hnil => hhd (h.eq_nil_iff.mpr hnil)
  have hnp : (select (arrayOf o) ks ++ [arenaEnd ks]).Nodup := by
    have hnp := nodup_select (arrayOf o) (ks ++ [.array o a])
    rw [select_concat_of_pos (arrayOf_self o a)] at hnp
    exact hnp
  rw [select_concat_of_pos (arrayOf_self o a)]
  exact h.concat hnp (Nat.ne_of_gt (arenaEnd_pos ks)) hend hnil

private theorem linked_first_array (h : Linked n 0 (select (arrayOf o) ks))
    (hend : n (arenaEnd ks) = 0) (a : Nat) :
    Linked n (arenaEnd ks) (select (arrayOf o) (ks ++ [.array o a])) := by
  have hnil : select (arrayOf o) ks = [] := h.eq_nil_iff.mp rfl
  rw [select_concat_of_pos (arrayOf_self o a), hnil]
  exact ⟨rfl, Nat.ne_of_gt (arenaEnd_pos ks), hend⟩

private theorem linked_other_array {o' : Nat} (h : Linked n he (select (arrayOf o') ks))
    (hne : owner ≠ o') (hnil : select (arrayOf owner) ks ≠ []) (q : Nat) :
    Linked (update n ((select (arrayOf owner) ks).getLastD 0) q) he
      (select (arrayOf o') ks) := by
  apply h.update
  obtain ⟨k, hk, hor⟩ := mem_select.mp (Linked.getLastD_mem hnil)
  apply not_mem_select hk
  cases k with
  | array o a =>
    rw [beq_iff_eq.mp hor]
    exact arrayOf_other a hne
  | _ => cases hor

end

/-- The entries of the data objects. -/
structure EntryLists (L : Links) (ks : List Kind) : Prop where
  linked : ∀ p payload, (p, .data payload) ∈ objects ks →
    Linked L.nextArray (L.entryArray p) (select (arrayOf p) ks)
  count : ∀ p payload, (p, .data payload) ∈ objects ks → L.nEntries p = (listed L ks p).length
  first : ∀ p payload, (p, .data payload) ∈ objects ks → L.entryOffset p = 0 → arrayItems p ks = []
  owners : ∀ owner item, .array owner item ∈ ks → owner < arenaEnd ks
  blank : ∀ p, arenaEnd ks ≤ p →
    L.entryOffset p = 0 ∧ L.entryArray p = 0 ∧ L.nEntries p = 0 ∧ L.nextArray p = 0

theorem EntryLists.of_same (h : EntryLists L ks) (hsa : Links.SameEntries L L') :
    EntryLists L' ks where
  linked := by
    rw [hsa.nextArray, hsa.entryArray]
    exact h.linked
  count := by
    unfold listed
    rw [hsa.nEntries, hsa.entryOffset]
    exact h.count
  first := by
    rw [hsa.entryOffset]
    exact h.first
  owners := h.owners
  blank := by
    rw [hsa.entryOffset, hsa.entryArray, hsa.nEntries, hsa.nextArray]
    exact h.blank

private theorem EntryLists.no_arrays (h : EntryLists L ks) (hp : arenaEnd ks ≤ p) :
    select (arrayOf p) ks = [] ∧ arrayItems p ks = [] := by
  have hnn : ∀ a, .array p a ∉ ks := by
    intro a hmem
    have hlt := h.owners p a hmem
    omega
  constructor
  · rw [eq_nil_iff_forall_not_mem]
    intro q hq
    obtain ⟨k, hk, hor⟩ := mem_select.mp hq
    cases k with
    | array o a =>
      rw [beq_iff_eq.mp hor] at hk
      exact hnn a (mem_of_mem_place hk)
    | _ => cases hor
  · rw [eq_nil_iff_forall_not_mem]
    intro a hitm
    obtain ⟨k, hk, hor⟩ := mem_filterMap.mp hitm
    cases k with
    | array o a' =>
      by_cases ho : o = p
      · exact hnn a' (ho ▸ hk)
      dsimp only at hor
      rw [if_neg ho] at hor
      cases hor
    | _ => cases hor

theorem EntryLists.concat_other (h : EntryLists L ks) (hk : isArray k = false) :
    EntryLists L (ks ++ [k]) := by
  obtain ⟨hent, har, hcn, -⟩ := h.blank (arenaEnd ks) (Nat.le_refl _)
  obtain ⟨hnn, hite⟩ := h.no_arrays (Nat.le_refl (arenaEnd ks))
  constructor
  · intro p pay hmem
    rw [select_concat_of_neg (arrayOf_eq_false hk p)]
    rcases mem_objects_concat.mp hmem with hold | ⟨rfl, -⟩
    · exact h.linked p pay hold
    · rw [hnn, har]
      rfl
  · intro p pay hmem
    rw [listed, arrayItems_concat_of_not hk]
    rcases mem_objects_concat.mp hmem with hold | ⟨rfl, -⟩
    · exact h.count p pay hold
    · rw [hcn, if_pos hent]
      rfl
  · intro p pay hmem
    rw [arrayItems_concat_of_not hk]
    rcases mem_objects_concat.mp hmem with hold | ⟨rfl, -⟩
    · exact h.first p pay hold
    · exact fun _ => hite
  · intro o a hmem
    rw [arenaEnd_concat]
    rcases mem_append.mp hmem with hmem | hmem
    · have hlt := h.owners o a hmem
      omega
    · rw [← mem_singleton.mp hmem] at hk
      cases hk
  · intro p hp
    rw [arenaEnd_concat] at hp
    exact h.blank p (by omega)

theorem EntryLists.entryOffset_eq_zero (h : EntryLists L ks) (hd : (d, .data pay) ∈ objects ks)
    (hcn : L.nEntries d = 0) : L.entryOffset d = 0 := by
  have hln := h.count d pay hd
  rw [hcn, listed] at hln
  by_contra hne
  rw [if_neg hne] at hln
  cases hln

theorem EntryLists.setFirst (h : EntryLists L ks) (hd : (d, .data pay) ∈ objects ks)
    (hcn : L.nEntries d = 0) (hent : e ≠ 0) :
    EntryLists (L.setEntries d e (L.entryArray d) 1) ks := by
  have hzr := h.entryOffset_eq_zero hd hcn
  have hite := h.first d pay hd hzr
  have hlt := lt_arenaEnd hd
  constructor
  · intro p p' hmem
    show Linked L.nextArray (update L.entryArray d (L.entryArray d) p) _
    rw [update_eq_self]
    exact h.linked p p' hmem
  · intro p p' hmem
    show update L.nEntries d 1 p =
      (if update L.entryOffset d e p = 0 then [] else
        update L.entryOffset d e p :: arrayItems p ks).length
    by_cases hp : p = d
    · subst hp
      rw [update_self, update_self, if_neg hent, hite]
      rfl
    · rw [update_of_ne hp, update_of_ne hp]
      exact h.count p p' hmem
  · intro p p' hmem
    show update L.entryOffset d e p = 0 → _
    by_cases hp : p = d
    · subst hp
      exact fun _ => hite
    · rw [update_of_ne hp]
      exact h.first p p' hmem
  · exact h.owners
  · intro p hp
    have hne : p ≠ d := by omega
    show update L.entryOffset d e p = 0 ∧
      update L.entryArray d (L.entryArray d) p = 0 ∧
        update L.nEntries d 1 p = 0 ∧ L.nextArray p = 0
    rw [update_of_ne hne, update_of_ne hne, update_of_ne hne]
    exact h.blank p hp

/-- The links after a new array was put at the end of a chain, behind the array `last`. -/
def Links.linkArray (L : Links) (last p : Nat) : Links :=
  if last = 0 then L else L.setNextArray last p

private theorem Links.linkArray_nextArray (L : Links) (l p : Nat) : (L.linkArray l p).nextArray =
      if l = 0 then L.nextArray else update L.nextArray l p := by
  unfold Links.linkArray
  split <;> rfl

theorem Links.linkArray_entries (L : Links) (l p : Nat) :
    (L.linkArray l p).entryOffset = L.entryOffset ∧
      (L.linkArray l p).entryArray = L.entryArray ∧
      (L.linkArray l p).nEntries = L.nEntries := by
  unfold Links.linkArray
  split <;> exact ⟨rfl, rfl, rfl⟩

private theorem linked_linkArray_other (h : Linked L.nextArray he (select (arrayOf o') ks))
    (hne : o ≠ o') (q : Nat) :
    Linked (L.linkArray ((select (arrayOf o) ks).getLastD 0) q).nextArray he
      (select (arrayOf o') ks) := by
  rw [Links.linkArray_nextArray]
  split
  · exact h
  · next hls =>
    exact linked_other_array h hne (fun hnil => hls (by rw [hnil]; rfl)) q

private theorem linked_linkArray_self (h : Linked L.nextArray he (select (arrayOf o) ks))
    (hend : L.nextArray (arenaEnd ks) = 0) (a : Nat) :
    Linked (L.linkArray ((select (arrayOf o) ks).getLastD 0) (arenaEnd ks)).nextArray
      (if he = 0 then arenaEnd ks else he)
      (select (arrayOf o) (ks ++ [.array o a])) := by
  rw [Links.linkArray_nextArray]
  by_cases hhd : he = 0
  · subst hhd
    have hnil := h.eq_nil_iff.mp rfl
    rw [if_pos rfl, if_pos (by rw [hnil]; rfl)]
    exact linked_first_array h hend a
  rw [if_neg hhd, if_neg (fun hls => hhd (h.eq_nil_iff.mpr (h.getLastD_eq_zero_iff.mp hls)))]
  exact linked_concat_array h hend hhd a

private theorem linkArray_blank (hls : l < arenaEnd ks) (hp : arenaEnd ks ≤ p) (q : Nat) :
    (L.linkArray l q).nextArray p = L.nextArray p := by
  rw [Links.linkArray_nextArray]
  split
  · rfl
  · exact update_of_ne (by omega) _ _

private theorem getLastD_lt_arenaEnd (P : Kind → Bool) (ks : List Kind) :
    (select P ks).getLastD 0 < arenaEnd ks := by
  by_cases hnil : select P ks = []
  · rw [hnil]
    exact arenaEnd_pos ks
  · exact lt_arenaEnd_of_mem_select (Linked.getLastD_mem hnil)

/-- A new array at the end of the chain of its owner. -/
theorem EntryLists.concat_array (h : EntryLists L ks) (hor : o < arenaEnd ks) (a : Nat)
    (hnx : L'.nextArray =
      (L.linkArray ((select (arrayOf o) ks).getLastD 0) (arenaEnd ks)).nextArray)
    (hoff : L'.entryOffset = L.entryOffset)
    (hother : ∀ p, p ≠ o → L'.entryArray p = L.entryArray p ∧ L'.nEntries p = L.nEntries p)
    (hsf : ∀ pay, (o, .data pay) ∈ objects ks → L.entryOffset o ≠ 0 ∧
      L'.entryArray o = (if L.entryArray o = 0 then arenaEnd ks else L.entryArray o) ∧
        L'.nEntries o = L.nEntries o + 1) :
    EntryLists L' (ks ++ [.array o a]) := by
  have hold : ∀ p pay, (p, .data pay) ∈ objects (ks ++ [.array o a]) →
      (p, .data pay) ∈ objects ks := by
    intro p pay hmem
    rcases mem_objects_concat.mp hmem with hold | ⟨-, heq⟩
    · exact hold
    · cases heq
  constructor
  · intro p pay hmem
    have hlk := h.linked p pay (hold p pay hmem)
    rw [hnx]
    by_cases hp : p = o
    · subst hp
      rw [(hsf pay (hold p pay hmem)).2.1]
      exact linked_linkArray_self hlk (h.blank _ (Nat.le_refl _)).2.2.2 a
    · rw [(hother p hp).1, select_concat_of_neg (arrayOf_other a (Ne.symm hp))]
      exact linked_linkArray_other hlk (Ne.symm hp) _
  · intro p pay hmem
    have hcn := h.count p pay (hold p pay hmem)
    rw [listed] at hcn ⊢
    rw [hoff, arrayItems_concat_array]
    by_cases hp : p = o
    · subst hp
      obtain ⟨hent, -, hn⟩ := hsf pay (hold p pay hmem)
      rw [if_neg hent] at hcn ⊢
      rw [hn, hcn, if_pos rfl]
      simp
    · rw [(hother p hp).2, hcn, if_neg (Ne.symm hp), append_nil]
  · intro p pay hmem
    rw [hoff, arrayItems_concat_array]
    intro hzr
    have hne : o ≠ p := by
      rintro rfl
      exact (hsf pay (hold o pay hmem)).1 hzr
    rw [if_neg hne, append_nil]
    exact h.first p pay (hold p pay hmem) hzr
  · intro o' a' hmem
    rw [arenaEnd_concat]
    rcases mem_append.mp hmem with hmem | hmem
    · have hlt := h.owners o' a' hmem
      omega
    · rw [(Kind.array.inj (mem_singleton.mp hmem)).1]
      omega
  · intro p hp
    rw [arenaEnd_concat] at hp
    obtain ⟨har, hcn⟩ := hother p (by omega)
    rw [hoff, har, hcn, hnx, linkArray_blank (getLastD_lt_arenaEnd _ ks) (by omega)]
    exact h.blank p (by omega)

structure GlobalList (h : JournalFileHeader) (L : Links) (ks : List Kind) : Prop where
  linked : Linked L.nextArray h.entryArrayOffset (select (arrayOf 0) ks)
  tail : h.tailEntryArrayOffset = (select (arrayOf 0) ks).getLastD 0

theorem GlobalList.of_eq (hg : GlobalList h L ks) (hnx : L'.nextArray = L.nextArray)
    (hhd : h'.entryArrayOffset = h.entryArrayOffset)
    (htl : h'.tailEntryArrayOffset = h.tailEntryArrayOffset) : GlobalList h' L' ks where
  linked := by
    rw [hnx, hhd]
    exact hg.linked
  tail := by
    rw [htl]
    exact hg.tail

theorem GlobalList.concat_other (hg : GlobalList h L ks) (hk : isArray k = false) :
    GlobalList h L (ks ++ [k]) := by
  have hslc : select (arrayOf 0) (ks ++ [k]) = select (arrayOf 0) ks :=
    select_concat_of_neg (arrayOf_eq_false hk 0)
  constructor
  · rw [hslc]
    exact hg.linked
  · rw [hslc]
    exact hg.tail

theorem GlobalList.concat_array (hg : GlobalList h L ks) (hd : 0 < d) (a : Nat) :
    GlobalList h (L.linkArray ((select (arrayOf d) ks).getLastD 0) (arenaEnd ks))
      (ks ++ [.array d a]) := by
  have hne : d ≠ 0 := Nat.ne_of_gt hd
  have hslc : select (arrayOf 0) (ks ++ [.array d a]) = select (arrayOf 0) ks :=
    select_concat_of_neg (arrayOf_other a hne)
  constructor
  · rw [hslc]
    exact linked_linkArray_other hg.linked hne _
  · rw [hslc]
    exact hg.tail

theorem GlobalList.concat_global (hg : GlobalList h L ks) (hend : L.nextArray (arenaEnd ks) = 0)
    (a : Nat) (hhd : h'.entryArrayOffset = if h.entryArrayOffset = 0 then arenaEnd ks
      else h.entryArrayOffset) (htl : h'.tailEntryArrayOffset = arenaEnd ks) :
    GlobalList h' (L.linkArray h.tailEntryArrayOffset (arenaEnd ks)) (ks ++ [.array 0 a]) := by
  constructor
  · rw [hhd, hg.tail]
    exact linked_linkArray_self hg.linked hend a
  · rw [htl, select_concat_of_pos (arrayOf_self 0 a), getLastD_concat]

end Rustd.JournalFile
