import Rustd.JournalFile.Fields

/-!
# Appending references to entries

The last part of appending an entry: it is added to the entries that each of its data list, and to
the list of all entries. Both end with a new array, unless it is the first entry of the data.
-/

namespace Rustd.JournalFile

open Base Program List Function

variable {h h' : JournalFileHeader} {L L' : Links} {ks ks' : List Kind} {f f' : File}
  {s sup : Bool} {E : Errno → Prop} {payload pay : List UInt8} {d e o : Nat}

section

def JournalFileHeader.addArray (h : JournalFileHeader) (ks : List Kind) : JournalFileHeader :=
  { h.addObject ks (.array 0 0) with
    nEntryArrays := (h.addObject ks (.array 0 0)).nEntryArrays + 1 }

private theorem JournalFileHeader.fixed_addArray (h : JournalFileHeader) (ks : List Kind) :
    (h.addArray ks).fixed = h.fixed := by
  simp only [fixed, addArray, addObject]

def arrayRoom : Nat := 32

theorem room_array (o a : Nat) : (Kind.array o a).room = arrayRoom := by
  simp only [Kind.room, Kind.size, arrayBase, arrayRoom]

private theorem ensures_appendEntryArray (hc : Consistent h L ks) (hrep : Represents f L ks)
    (o e : Nat)
    (hE : uint32Max < arenaEnd ks + arrayRoom → E .fbig)
    (hQ : ∀ f', arenaEnd ks + arrayRoom < 2 ^ 63 → Represents f' L (ks ++ [.array o e]) →
      Q (h.addArray ks, arenaEnd ks) f') :
    (appendEntryArray h e).Ensures sup f E Q := by
  obtain ⟨-, -, -, hbl⟩ := hc.entries.blank (arenaEnd ks) (Nat.le_refl _)
  have hnew : ({ object := ObjectType.entryArray.header (arrayBase + 8) } : EntryArrayObject) =
      L.array (arenaEnd ks) := by
    rw [Links.array, hbl]
  have hln := L.length_array (arenaEnd ks)
  have hwo : word e ≠ [] := ne_nil_of_length (length_word e) (by decide)
  unfold appendEntryArray
  rw [hnew]
  apply ensures_bind
  apply ensures_appendZeroObject hc.header hc.bound hrep (.array 0 0) (by decide) hE
  intro f₁ hagr hrc hbn
  apply ensures_bind
  apply ensures_writeAt
  apply ensures_bind
  apply ensures_writeAt
  exact hQ _ hbn (hrep.concat_write (k := .array o e) hagr hrc
    (fun p _ => Links.SameAt.refl L p) hln (ne_nil_of_length hln (by decide)) hwo
    (fun g hg => hg))

private theorem ensures_linkLastArray (hrep : Represents f L ks)
    (hL : L.Small) (hlk : Linked L.nextArray p l) (hnil : l ≠ []) (hig : l.Pairwise (· < ·))
    (hmem : ∀ q ∈ l, ∃ o a, (q, .array o a) ∈ objects ks) (hfue : l.length ≤ fu)
    (new : Nat) : (linkLastArray new fu p).Ensures sup f E
      (fun _ f' => Represents f' (L.setNextArray (l.getLastD 0) new) ks) := by
  induction l generalizing p fu with
  | nil => exact absurd rfl hnil
  | cons q l ih =>
    obtain ⟨rfl, -, hnx⟩ := hlk
    obtain ⟨o, a, har⟩ := hmem p mem_cons_self
    have hrea := (hrep.stored p _ har).left.read?_of_length (L.length_array p)
    rw [pairwise_cons] at hig
    cases fu with
    | zero => exact absurd hfue (Nat.not_succ_le_zero _)
    | succ fu =>
      have htp : (L.array p).object.type = ObjectType.entryArray.code := rfl
      unfold linkLastArray
      apply ensures_bind
      apply ensures_readAt hrea
      rw [decode_array hL]
      dsimp only
      rw [if_neg (not_not_intro htp)]
      have hfld : (L.array p).nextEntryArrayOffset = L.nextArray p := rfl
      rw [hfld]
      cases l with
      | nil =>
        have hend : L.nextArray p = 0 := hnx
        rw [if_pos hend]
        apply ensures_writeAt
        exact hrep.setNextArray har
      | cons q' l =>
        have hlt : p < L.nextArray p := by
          rw [hnx.1]
          exact hig.1 q' mem_cons_self
        rw [if_neg (by omega), if_neg (Nat.not_le.mpr hlt)]
        exact ih hnx (cons_ne_nil q' l) hig.2
          (fun r hr => hmem r (mem_cons_of_mem p hr)) (Nat.le_of_succ_le_succ hfue)

private theorem exists_array_of_mem_select (h : p ∈ select (arrayOf o) ks) :
    ∃ o a, (p, .array o a) ∈ objects ks := by
  obtain ⟨k, hk, hor⟩ := mem_select.mp h
  cases k with
  | array o' a => exact ⟨o', a, hk⟩
  | _ => cases hor

end

section

private theorem Links.linkArray_same (L : Links) (l p : Nat) :
    Links.SameHash L (L.linkArray l p) ∧ Links.SameFields L (L.linkArray l p) := by
  unfold Links.linkArray
  split <;> exact ⟨⟨rfl, rfl⟩, ⟨rfl, rfl⟩⟩

theorem Links.Small.linkArray (hL : L.Small) (hp : p < 2 ^ 64) (l : Nat) :
    (L.linkArray l p).Small := by
  unfold Links.linkArray
  split
  · exact hL
  · exact hL.setNextArray hp

private theorem length_arrayItems_le (o : Nat) (ks : List Kind) :
    (arrayItems o ks).length ≤ ks.length := length_filterMap_le _ _

private theorem Consistent.nEntries_lt (hc : Consistent h L ks) (hd : (d, .data pay) ∈ objects ks) :
    L.nEntries d + 1 < 2 ^ 64 := by
  have hite := length_arrayItems_le d ks
  have hln := length_add_le_stop journalHeaderSize ks
  have hbn := hc.bound
  have hlst : (listed L ks d).length ≤ (arrayItems d ks).length + 1 := by
    unfold listed
    split
    · exact Nat.zero_le _
    · exact Nat.le_refl _
  rw [hc.entries.count d pay hd]
  unfold arenaEnd at hbn
  omega

private theorem HeaderFor.addArray (hh : HeaderFor h ks) (o a : Nat) :
    HeaderFor (h.addArray ks) (ks ++ [.array o a]) := by
  apply hh.concat (.array o a) (h.fixed_addArray ks)
  all_goals simp only [JournalFileHeader.addArray, JournalFileHeader.addObject, room_array,
    Kind.hashed, isArray]
  all_goals rfl

theorem Consistent.setFirst (hc : Consistent h L ks) (hd : (d, .data pay) ∈ objects ks)
    (hcn : L.nEntries d = 0) (he : e ≠ 0) (hlt : e < 2 ^ 64) :
    Consistent h (L.setEntries d e (L.entryArray d) 1) ks where
  tables := hc.tables
  header := hc.header
  bound := hc.bound
  small := hc.small.setEntries hlt (hc.small.entryArray d) (by decide)
  hash := hc.hash.of_same ⟨rfl, rfl⟩
  fields := hc.fields.of_same ⟨rfl, rfl⟩
  entries := hc.entries.setFirst hd hcn he
  all := hc.all.of_eq rfl rfl rfl

/-- The links after an entry of data was put into a new array at the offset `p`. -/
def Links.linkEntry (L : Links) (ks : List Kind) (d p : Nat) : Links :=
  (L.linkArray ((select (arrayOf d) ks).getLastD 0) p).setEntries d (L.entryOffset d)
    (if L.entryArray d = 0 then p else L.entryArray d) (L.nEntries d + 1)

private theorem Links.entryOffset_linkEntry (L : Links) (ks : List Kind) (d p : Nat) :
    (L.linkEntry ks d p).entryOffset = L.entryOffset := by
  show update (L.linkArray _ p).entryOffset d (L.entryOffset d) = L.entryOffset
  rw [(L.linkArray_entries _ p).1, update_eq_self]

private theorem EntryLists.linkEntry (he : EntryLists L ks) (hd : (d, .data pay) ∈ objects ks)
    (hent : L.entryOffset d ≠ 0) (e : Nat) :
    EntryLists (L.linkEntry ks d (arenaEnd ks)) (ks ++ [.array d e]) := by
  obtain ⟨-, har, hcn⟩ := L.linkArray_entries ((select (arrayOf d) ks).getLastD 0) (arenaEnd ks)
  refine he.concat_array (lt_arenaEnd hd) e ?_ (L.entryOffset_linkEntry ks d _) ?_ ?_
  · rfl
  · intro p hp
    refine ⟨(update_of_ne hp _ _).trans ?_, (update_of_ne hp _ _).trans ?_⟩
    · rw [har]
    · rw [hcn]
  · exact fun _ _ => ⟨hent, update_self _ _ _, update_self _ _ _⟩

theorem Consistent.concat_array (hc : Consistent h L ks) (hd : (d, .data pay) ∈ objects ks)
    (hent : L.entryOffset d ≠ 0) (hbn : arenaEnd ks + arrayRoom < 2 ^ 63) (e : Nat) :
    Consistent (h.addArray ks) (L.linkEntry ks d (arenaEnd ks)) (ks ++ [.array d e]) := by
  have hoff : arenaEnd ks < 2 ^ 64 := Nat.lt_trans hc.bound (by decide)
  have hpos : 0 < d := Nat.lt_of_lt_of_le (by decide) (bounds_of_mem_place hd).1
  obtain ⟨hha, hfl⟩ := L.linkArray_same ((select (arrayOf d) ks).getLastD 0) (arenaEnd ks)
  constructor
  · exact hc.tables.concat nofun
  · exact hc.header.addArray d e
  · rw [arenaEnd_concat, room_array]
    exact hbn
  · apply (hc.small.linkArray hoff _).setEntries (hc.small.entryOffset d) _ (hc.nEntries_lt hd)
    split
    · exact hoff
    · exact hc.small.entryArray d
  · exact (hc.hash.concat_other (fun _ => rfl)).of_same ⟨hha.bucket, hha.nextHash⟩
  · exact (hc.fields.concat_other (k := .array d e) rfl nofun).of_same ⟨hfl.headData, hfl.nextField⟩
  · exact hc.entries.linkEntry hd hent e
  apply (hc.all.concat_array hpos e).of_eq
  · rfl
  · simp only [JournalFileHeader.addArray, JournalFileHeader.addObject]
  · simp only [JournalFileHeader.addArray, JournalFileHeader.addObject]

private theorem Links.data_setEntries (L : Links) (d : Nat) (payload : List UInt8)
    (en a n : Nat) : { L.data d payload with
      entryOffset := en, entryArrayOffset := a, nEntries := n } =
      (L.setEntries d en a n).data d payload := by
  simp only [Links.data, Links.setEntries, update_self]

private theorem listed_setFirst (hc : Consistent h L ks) (hd : (d, .data pay) ∈ objects ks)
    (hcn : L.nEntries d = 0) (he : e ≠ 0) (a n : Nat) :
    listed (L.setEntries d e a n) ks = update (listed L ks) d (listed L ks d ++ [e]) := by
  have hzr := hc.entries.entryOffset_eq_zero hd hcn
  funext p
  show (if update L.entryOffset d e p = 0 then [] else
    update L.entryOffset d e p :: arrayItems p ks) = _
  by_cases hp : p = d
  · subst hp
    rw [update_self, update_self, if_neg he, listed, if_pos hzr,
      hc.entries.first p pay hd hzr]
    rfl
  · rw [update_of_ne hp, update_of_ne hp]
    rfl

private theorem listed_linkEntry (hent : L.entryOffset d ≠ 0) (p e : Nat) :
    listed (L.linkEntry ks d p) (ks ++ [.array d e]) =
      update (listed L ks) d (listed L ks d ++ [e]) := by
  funext q
  rw [listed, L.entryOffset_linkEntry, arrayItems_concat_array]
  by_cases hq : q = d
  · subst hq
    rw [update_self, listed, if_neg hent, if_neg hent, if_pos rfl, cons_append]
  · rw [update_of_ne hq, if_neg (Ne.symm hq), append_nil, listed]

/-- An entry is added to those that data list. -/
theorem ensures_appendDataEntryReference (hc : Consistent h L ks) (hrep : Represents f L ks)
    (hd : (d, .data payload) ∈ objects ks) (he : e ≠ 0) (hlt : e < 2 ^ 64) :
    (appendDataEntryReference h d e).Ensures s f (TooLarge (arenaEnd ks + arrayRoom))
      (fun h' f' => ∃ L' ks', Grown (· = .array d e) arrayRoom h ks h' L' ks' f' ∧
        listed L' ks' = update (listed L ks) d (listed L ks d ++ [e])) := by
  have hrea := (hrep.stored d _ hd).left.read?_of_length (L.length_data d payload)
  have hde : DataObject.decode (L.data d payload).encode = L.data d payload :=
    decode_data hc.small (Nat.lt_trans (size_lt hc.bound hd) (by decide))
  have htp : (L.data d payload).object.type = ObjectType.data.code := rfl
  have hcountField : (L.data d payload).nEntries = L.nEntries d := rfl
  have harrayField : (L.data d payload).entryArrayOffset = L.entryArray d := rfl
  unfold appendDataEntryReference
  apply ensures_bind
  apply ensures_readAt hrea
  dsimp only
  rw [hde, if_neg (not_not_intro htp), hcountField, harrayField]
  by_cases hcn : L.nEntries d = 0
  · rw [if_pos hcn]
    apply ensures_bind
    apply ensures_writeAt
    have hrep' := hrep.setEntries hd e (L.entryArray d) 1
    rw [← L.data_setEntries] at hrep'
    refine ⟨_, ks, ⟨hc.setFirst hd hcn he hlt, hrep', rfl, Nat.le_add_right _ _, [],
      (append_nil ks).symm, fun _ hk => absurd hk not_mem_nil⟩, ?_⟩
    exact listed_setFirst hc hd hcn he _ _
  · have hent : L.entryOffset d ≠ 0 := by
      intro hzr
      apply hcn
      rw [hc.entries.count d payload hd, listed, if_pos hzr]
      rfl
    rw [if_neg hcn]
    apply ensures_bind
    apply ensures_appendEntryArray hc hrep d e (⟨.inl rfl, ·⟩)
    intro f₁ hbn h₁
    have hd₁ : (d, Kind.data payload) ∈ objects (ks ++ [.array d e]) :=
      mem_objects_concat.mpr (.inl hd)
    have hlk := hc.entries.linked d payload hd
    have hre : ∀ f', Represents f' (L.linkEntry ks d (arenaEnd ks)) (ks ++ [.array d e]) →
        ∃ L' ks', Grown (· = .array d e) arrayRoom h ks (h.addArray ks) L' ks' f' ∧
          listed L' ks' = update (listed L ks) d (listed L ks d ++ [e]) :=
      fun f' hrep' => ⟨_, _, Grown.single (hc.concat_array hd hent hbn e) hrep'
        (h.fixed_addArray ks) (Nat.le_of_eq (room_array d e)) rfl, listed_linkEntry hent _ e⟩
    by_cases har : L.entryArray d = 0
    · -- the first array of the data is in their own structure too
      have hnil := (hlk.eq_nil_iff).mp har
      have hlin : L.linkEntry ks d (arenaEnd ks) =
          L.setEntries d (L.entryOffset d) (arenaEnd ks) (L.nEntries d + 1) := by
        rw [Links.linkEntry, hnil, if_pos har]
        rfl
      have hrep₂ := h₁.setEntries hd₁ (L.entryOffset d) (arenaEnd ks) (L.nEntries d + 1)
      rw [if_pos har]
      apply ensures_bind
      apply ensures_writeAt
      apply hre
      rw [hlin]
      rw [← L.data_setEntries] at hrep₂
      exact hrep₂
    · have hnil : select (arrayOf d) ks ≠ [] := fun hnil => har (hlk.eq_nil_iff.mpr hnil)
      have hls : (select (arrayOf d) ks).getLastD 0 ≠ 0 :=
        fun hls => hnil (hlk.getLastD_eq_zero_iff.mp hls)
      have hlin : L.linkEntry ks d (arenaEnd ks) =
          (L.setNextArray ((select (arrayOf d) ks).getLastD 0) (arenaEnd ks)).setEntries d
            (L.entryOffset d) (L.entryArray d) (L.nEntries d + 1) := by
        rw [Links.linkEntry, if_neg har, Links.linkArray, if_neg hls]
      rw [if_neg har]
      apply ensures_bind
      refine (ensures_linkLastArray h₁ hc.small hlk hnil (pairwise_select _ _) ?_ ?_ _).mono ?_
      · intro q hq
        obtain ⟨o, a, hmem⟩ := exists_array_of_mem_select hq
        exact ⟨o, a, mem_objects_concat.mpr (.inl hmem)⟩
      · have hle := length_select_le (arrayOf d) ks
        have hbn := hc.bound
        omega
      intro _ f₂ hrep₂
      have hrep₃ := hrep₂.setEntries hd₁ (L.entryOffset d) (L.entryArray d) (L.nEntries d + 1)
      apply ensures_bind
      apply ensures_writeAt
      apply hre
      rw [hlin]
      rw [← Links.data_setEntries] at hrep₃
      exact hrep₃

theorem ensures_appendDataEntryReferences (hc : Consistent h L ks)
    (hrep : Represents f L ks) (hrfs : ∀ ref ∈ rf, ∃ pay, (ref.offset, .data pay) ∈ objects ks)
    (hnp : (rf.map DataReference.offset).Nodup) (he : e ≠ 0) (hlt : e < 2 ^ 64) :
    (appendDataEntryReferences e h rf).Ensures sup f
      (TooLarge (arenaEnd ks + rf.length * arrayRoom)) (fun h' f' => ∃ L' ks',
        Grown (fun k => ∃ d, d ≠ 0 ∧ k = .array d e) (rf.length * arrayRoom) h ks h' L' ks' f' ∧
          ∀ p, listed L' ks' p =
            listed L ks p ++ if p ∈ rf.map DataReference.offset then [e] else []) := by
  induction rf generalizing h L ks f with
  | nil =>
    refine ⟨L, ks, Grown.refl hc hrep, fun p => ?_⟩
    rw [map_nil, if_neg not_mem_nil, append_nil]
  | cons ref rf ih =>
    obtain ⟨pay, hd⟩ := hrfs ref mem_cons_self
    have hpos : ref.offset ≠ 0 :=
      Nat.ne_of_gt (Nat.lt_of_lt_of_le (by decide) (bounds_of_mem_place hd).1)
    have hco : (ref :: rf).length * arrayRoom = arrayRoom + rf.length * arrayRoom := by
      rw [length_cons, Nat.succ_mul, Nat.add_comm]
    rw [map_cons, nodup_cons] at hnp
    unfold appendDataEntryReferences
    apply ensures_bind
    refine ((ensures_appendDataEntryReference hc hrep hd he hlt).weaken ?_).mono ?_
    · exact fun e he => he.mono (by omega)
    rintro h₁ f₁ ⟨L₁, ks₁, hg, hlst⟩
    have hgr := hg.room
    refine ((ih hg.consistent hg.represents ?_ hnp.2).weaken ?_).mono ?_
    · intro r' hmem
      obtain ⟨p', hd'⟩ := hrfs r' (mem_cons_of_mem ref hmem)
      exact ⟨p', hg.mem_objects hd'⟩
    · exact fun e he => he.mono (by omega)
    rintro h₂ f₂ ⟨L₂, ks₂, hg', hlst'⟩
    refine ⟨L₂, ks₂, ?_, ?_⟩
    · rw [hco]
      exact (hg.mono (fun k hk => ⟨ref.offset, hpos, hk⟩)).trans hg'
    intro p
    rw [hlst', hlst]
    by_cases hp : p = ref.offset
    · subst hp
      rw [update_self, if_neg hnp.1, append_nil,
        if_pos (List.mem_map.mpr ⟨ref, mem_cons_self, rfl⟩)]
    have hiff : p ∈ (ref :: rf).map DataReference.offset ↔
        p ∈ rf.map DataReference.offset := by
      rw [map_cons, mem_cons]
      exact or_iff_right hp
    rw [update_of_ne hp]
    simp only [hiff]

end

section

def JournalFileHeader.addGlobal (h : JournalFileHeader) (ks : List Kind) : JournalFileHeader :=
  { h.addArray ks with
    entryArrayOffset := if h.entryArrayOffset = 0 then arenaEnd ks else h.entryArrayOffset
    tailEntryArrayOffset := arenaEnd ks
    tailEntryArrayNEntries := 1 }

private theorem JournalFileHeader.fixed_addGlobal (h : JournalFileHeader) (ks : List Kind) :
    (h.addGlobal ks).fixed = h.fixed := by
  simp only [fixed, addGlobal, addArray, addObject]

theorem Consistent.concat_global (hc : Consistent h L ks)
    (hbn : arenaEnd ks + arrayRoom < 2 ^ 63) (e : Nat) :
    Consistent (h.addGlobal ks) (L.linkArray h.tailEntryArrayOffset (arenaEnd ks))
      (ks ++ [.array 0 e]) := by
  have hoff : arenaEnd ks < 2 ^ 64 := Nat.lt_trans hc.bound (by decide)
  obtain ⟨-, -, -, hend⟩ := hc.entries.blank (arenaEnd ks) (Nat.le_refl _)
  obtain ⟨hha, hfl⟩ := L.linkArray_same h.tailEntryArrayOffset (arenaEnd ks)
  constructor
  · exact hc.tables.concat (fun _ h => by cases h)
  · apply hc.header.concat (.array 0 e) (h.fixed_addGlobal ks)
    all_goals simp only [JournalFileHeader.addGlobal, JournalFileHeader.addArray,
      JournalFileHeader.addObject, room_array, Kind.hashed, isArray]
    all_goals rfl
  · rw [arenaEnd_concat, room_array]
    exact hbn
  · exact hc.small.linkArray hoff _
  · exact (hc.hash.concat_other (fun _ => rfl)).of_same hha
  · exact (hc.fields.concat_other (k := .array 0 e) rfl (fun _ h => by cases h)).of_same hfl
  · obtain ⟨hent, har, hcn⟩ := L.linkArray_entries h.tailEntryArrayOffset (arenaEnd ks)
    apply hc.entries.concat_array (arenaEnd_pos ks) e (by rw [hc.all.tail]) hent
    · exact fun p _ => ⟨congrFun har p, congrFun hcn p⟩
    · exact fun _ hmem => absurd (bounds_of_mem_place hmem).1 (by decide)
  apply hc.all.concat_global hend e
  · simp only [JournalFileHeader.addGlobal]
  · simp only [JournalFileHeader.addGlobal]

theorem listed_concat_global (L : Links) (ks : List Kind) (l p e : Nat) {d : Nat} (hd : d ≠ 0) :
    listed (L.linkArray l p) (ks ++ [.array 0 e]) d = listed L ks d := by
  obtain ⟨hoff, -, -⟩ := L.linkArray_entries l p
  rw [listed, listed, hoff, arrayItems_concat_array, if_neg (Ne.symm hd), append_nil]

/-- An entry is added to the list of all entries. -/
theorem ensures_appendGlobalEntryReference (hc : Consistent h L ks) (hrep : Represents f L ks)
    (e : Nat) : (appendGlobalEntryReference h e).Ensures sup f (TooLarge (arenaEnd ks + arrayRoom))
      (fun h' f' => h'.fixed = h.fixed ∧ h'.tailEntryArrayOffset < 2 ^ 32 ∧
        h'.tailEntryArrayNEntries = 1 ∧
        Consistent h' (L.linkArray h.tailEntryArrayOffset (arenaEnd ks)) (ks ++ [.array 0 e]) ∧
          Represents f' (L.linkArray h.tailEntryArrayOffset (arenaEnd ks))
            (ks ++ [.array 0 e])) := by
  unfold appendGlobalEntryReference
  apply ensures_bind
  apply ensures_appendEntryArray hc hrep 0 e (⟨.inl rfl, ·⟩)
  intro f₁ hbn h₁
  have hhd : (h.addArray ks).entryArrayOffset = h.entryArrayOffset := by
    simp only [JournalFileHeader.addArray, JournalFileHeader.addObject]
  have htl : (h.addArray ks).tailEntryArrayOffset = h.tailEntryArrayOffset := by
    simp only [JournalFileHeader.addArray, JournalFileHeader.addObject]
  dsimp only
  rw [hhd, htl]
  split
  · next hfu => exact ⟨.inl rfl, by omega⟩
  rename_i hle
  have hsml : arenaEnd ks < 2 ^ 32 := by
    unfold uint32Max at hle
    omega
  have hre : ∀ h' f', h' = h.addGlobal ks →
      Represents f' (L.linkArray h.tailEntryArrayOffset (arenaEnd ks)) (ks ++ [.array 0 e]) →
      h'.fixed = h.fixed ∧ h'.tailEntryArrayOffset < 2 ^ 32 ∧ h'.tailEntryArrayNEntries = 1 ∧
        Consistent h' (L.linkArray h.tailEntryArrayOffset (arenaEnd ks)) (ks ++ [.array 0 e]) ∧
          Represents f' (L.linkArray h.tailEntryArrayOffset (arenaEnd ks))
            (ks ++ [.array 0 e]) := by
    rintro h' f' rfl hrep'
    refine ⟨h.fixed_addGlobal ks, ?_, ?_, hc.concat_global hbn e, hrep'⟩
    · simp only [JournalFileHeader.addGlobal, hsml]
    · simp only [JournalFileHeader.addGlobal]
  by_cases hfr : h.entryArrayOffset = 0
  · have hnil := hc.all.linked.eq_nil_iff.mp hfr
    have hzr : h.tailEntryArrayOffset = 0 := by
      rw [hc.all.tail, hnil]
      rfl
    have hlin : L.linkArray h.tailEntryArrayOffset (arenaEnd ks) = L := by
      rw [Links.linkArray, if_pos hzr]
    rw [if_pos hfr]
    apply hre
    · simp only [JournalFileHeader.addGlobal, if_pos hfr]
    · rw [hlin]
      exact h₁
  · have hne : h.tailEntryArrayOffset ≠ 0 := by
      intro hzr
      rw [hc.all.tail] at hzr
      exact hfr (hc.all.linked.eq_nil_iff.mpr (hc.all.linked.getLastD_eq_zero_iff.mp hzr))
    have hlin : L.linkArray h.tailEntryArrayOffset (arenaEnd ks) =
        L.setNextArray h.tailEntryArrayOffset (arenaEnd ks) := by
      rw [Links.linkArray, if_neg hne]
    rw [if_neg hfr, if_neg hne]
    apply ensures_bind
    apply ensures_writeAt
    obtain ⟨o, a, hmem⟩ : ∃ o a,
        (h.tailEntryArrayOffset, Kind.array o a) ∈ objects ks := by
      rw [hc.all.tail] at hne ⊢
      exact exists_array_of_mem_select (Linked.getLastD_mem (fun hnil => hne (by rw [hnil]; rfl)))
    apply hre
    · simp only [JournalFileHeader.addGlobal, if_neg hfr]
    · rw [hlin]
      exact h₁.setNextArray (mem_objects_concat.mpr (.inl hmem))

end

end Rustd.JournalFile
