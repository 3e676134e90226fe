import Rustd.JournalFile.WellFormed

/-!
# Appending an entry

Appending an entry to a well-formed file leaves it well-formed for the longer log, unless there is
no room for the entry or it has a field with a name that is not valid.
-/

namespace Rustd.JournalFile

open Base Program List

variable {h h' : JournalFileHeader} {L L' : Links} {ks ks' : List Kind} {f f' : File}
  {sup : Bool} {E : Errno → Prop} {log : List Logged} {l : Logged} {boot : Id128}

section

theorem ensures_headerRead (hhl : f.Holds 0 h.encode) (hft : h.Fits)
    (hh : HeaderOf boot h ks log) (hsz : h.headerSize = journalHeaderSize) (hQ : Q h f) :
    headerRead.Ensures sup f E Q := by
  have hrea := hhl.read?_of_length hft.length_encode
  unfold headerRead
  apply ensures_bind
  apply ensures_readAt hrea
  dsimp only
  rw [JournalFileHeader.decode_encode hft, hh.signature, hh.compatibleFlags,
    hh.incompatibleFlags, hsz, if_neg (not_not_intro rfl), if_neg (Nat.lt_irrefl _),
    if_neg (not_not_intro rfl), if_neg (by decide)]
  exact hQ

theorem Represents.write_header (hrep : Represents f L ks)
    (hln : bs.length = journalHeaderSize) : Represents (f.write 0 bs) L ks := by
  refine ⟨Nat.le_trans hrep.reaches (File.le_size_write f 0 bs), ?_⟩
  intro p k hmem
  have hstr : journalHeaderSize ≤ p := (bounds_of_mem_place hmem).1
  exact (hrep.stored p k hmem).write_apart (hrep.le_size hmem) (.inl (by omega))

end

section

private theorem length_encode_item (ref : DataReference) : ref.item.encode.length = 16 := by
  simp [EntryItem.encode]

private theorem ensures_writeItems {off : Nat} (rf : List DataReference) (hoff : off ≤ f.size)
    (hQ : ∀ f', File.AgreeBelow off f f' → f.size ≤ f'.size →
      f'.Holds off (encodeItems rf) → Q () f') :
    (writeItems off rf).Ensures sup f E Q := by
  induction rf generalizing f off with
  | nil => exact hQ f (File.AgreeBelow.refl off f) (Nat.le_refl _) ⟨hoff, nofun⟩
  | cons ref rf ih =>
    have hln := length_encode_item ref
    have hhl : (f.write off ref.item.encode).Holds off ref.item.encode :=
      File.holds_write f off (ne_nil_of_length hln (by decide))
    have hsz := hhl.1
    rw [hln] at hsz
    unfold writeItems
    apply ensures_bind
    apply ensures_writeAt
    apply ih hsz
    intro f' hagr hle hite
    apply hQ f'
    · exact (File.agreeBelow_write f _ (Nat.le_refl _)).trans (hagr.mono (Nat.le_add_right _ _) hsz)
    · exact Nat.le_trans (File.le_size_write f _ _) hle
    show f'.Holds off (ref.item.encode ++ encodeItems rf)
    rw [File.holds_append, hln]
    exact ⟨hhl.of_agreeBelow hagr (Nat.le_of_eq (by rw [hln])) hsz, hite⟩

theorem Consistent.concat_entry (hc : Consistent h L ks) (rc : EntryObject)
    (rf : List DataReference) (hbn : arenaEnd ks + (Kind.entry rc rf).room < 2 ^ 63) :
    Consistent (h.addObject ks (.entry rc rf)) L (ks ++ [.entry rc rf]) := by
  constructor
  · exact hc.tables.concat (fun _ h => by cases h)
  · apply hc.header.concat (.entry rc rf) (h.fixed_addObject ks _)
    all_goals simp only [JournalFileHeader.addObject, Kind.hashed, isArray]
    all_goals rfl
  · rw [arenaEnd_concat]
    exact hbn
  · exact hc.small
  · exact hc.hash.concat_other (fun _ => rfl)
  · exact hc.fields.concat_other rfl (fun _ h => by cases h)
  · exact hc.entries.concat_other rfl
  apply (hc.all.concat_other rfl).of_eq rfl
  · simp only [JournalFileHeader.addObject]
  · simp only [JournalFileHeader.addObject]

private theorem ensures_newEntry {β : Type} (new : EntryObject) {rf : List DataReference}
    {rc : JournalFileHeader × Nat → EntryObject}
    {t : JournalFileHeader × Nat → Program Errno β} {Q : β → File → Prop}
    (hc : Consistent h L ks) (hrep : Represents f L ks) (hob : ∀ r, (rc r).object =
      ObjectType.entry.header (entryBase + rf.length * 16))
    (hsz : entryBase + rf.length * 16 ≤ 2 ^ 63 + 2 ^ 32)
    (hnew : ∀ k : Kind, rc (h.addObject ks k, arenaEnd ks) = new)
    (hE : uint32Max < arenaEnd ks + (Kind.entry new rf).room → E .fbig)
    (hrest : ∀ f', Consistent (h.addObject ks (.entry new rf)) L (ks ++ [.entry new rf]) →
      Represents f' L (ks ++ [.entry new rf]) →
      (t (h.addObject ks (.entry new rf), arenaEnd ks)).Ensures sup f' E Q) : (do
      let r ← appendZeroObject h .entry (entryBase + rf.length * 16)
      writeAt r.2 (rc r).encode
      writeItems (r.2 + entryBase) rf
      t r).Ensures sup f E Q := by
  have hob' := hob (h.addObject ks (.entry new rf), arenaEnd ks)
  rw [hnew] at hob'
  have hln := length_encode_entry new hob'
  apply ensures_bind
  apply ensures_appendZeroObject hc.header hc.bound hrep (.entry new rf) hsz hE
  intro f₁ hagr hrc hbn
  apply ensures_bind
  apply ensures_writeAt
  rw [hnew]
  have hhl := File.holds_write f₁ (arenaEnd ks) (ne_nil_of_length hln (by decide))
  have hend := hhl.1
  rw [hln] at hend
  apply ensures_bind
  apply ensures_writeItems rf hend
  intro f₂ hagr' hle hite
  apply hrest f₂ (hc.concat_entry new rf hbn)
  apply hrep.concat _ (fun p _ => Links.SameAt.refl L p)
  · exact Nat.le_trans hrc (Nat.le_trans (File.le_size_write f₁ _ _) hle)
  · refine ⟨hob', ?_⟩
    rw [File.holds_append, hln]
    exact ⟨hhl.of_agreeBelow hagr' (Nat.le_of_eq (by rw [hln])) hend, hite⟩
  · exact (hagr.trans (File.agreeBelow_write f₁ _ (Nat.le_refl _))).trans
      (hagr'.mono (Nat.le_add_right _ _) hend)

end

section

variable {rc : EntryObject} {refs rf : List DataReference}

private theorem nodup_refs (hrfs : List.Forall₂ (RefersTo ks) fs rf)
    (hvl : ∀ fi ∈ fs, journalFieldValid fi.key = true)
    (hds : (fs.map Field.key).Nodup) : (rf.map DataReference.offset).Nodup := by
  induction hrfs with
  | nil => exact nodup_nil
  | @cons fi ref fs rf href hrest ih =>
    rw [map_cons, nodup_cons] at hds
    rw [map_cons, nodup_cons]
    refine ⟨?_, ih (fun fi' hmem => hvl fi' (mem_cons_of_mem fi hmem)) hds.2⟩
    intro hmem
    obtain ⟨r', href', heq⟩ := List.mem_map.mp hmem
    obtain ⟨fi', hfld', hr⟩ := forall₂_exists_left hrest href'
    -- the two fields have the same data object, so they have the same name
    have hda := hr.1
    rw [heq] at hda
    have hpd : fi'.payload = fi.payload := Kind.data.inj (place_unique hda href.1)
    have hkey : fi'.key = fi.key := by
      rw [← fieldName_payload (hvl fi' (mem_cons_of_mem fi hfld')), hpd,
        fieldName_payload (hvl fi mem_cons_self)]
    exact hds.1 (List.mem_map.mpr ⟨fi', hfld', hkey⟩)

def inputRoom (input : Input) : Nat :=
  fieldsRoom input.fields + (entryBase + input.fields.length * 16 + 7) / 8 * 8 +
    input.fields.length * arrayRoom + arrayRoom

private theorem length_le_fieldsRoom (fields : List Field) :
    fields.length * 104 ≤ fieldsRoom fields := by
  induction fields with
  | nil => exact Nat.zero_le _
  | cons fi fields ih =>
    have hfld := (Kind.field fi.key).size_le_room
    have hda := (Kind.data fi.payload).size_le_room
    simp only [Kind.size, fieldBase, dataBase] at hfld hda
    simp only [fieldsRoom, length_cons, map_cons, sum_cons, fieldRoom] at ih ⊢
    omega

private theorem JournalFileHeader.bootId_eq {id : Id128} (hid : h.tailEntryBootId = id.val) :
    h.bootId = id := by
  apply Subtype.ext
  show (h.tailEntryBootId ++ List.replicate 16 0).take 16 = id.val
  rw [hid, take_append_of_le_length (Nat.le_of_eq id.property.symm),
    take_of_length_le (Nat.le_of_eq id.property)]

private theorem assignSeqnum_lt (p : Nat) (h : s < 2 ^ 64) : assignSeqnum p s < 2 ^ 64 := by
  unfold assignSeqnum
  split
  · exact Nat.mod_lt _ (by decide)
  · exact h

def entryObject (l : Logged) (refs : List DataReference) : EntryObject :=
  { object := ObjectType.entry.header (entryBase + refs.length * 16)
    seqnum := l.seqnum
    realtime := l.realtimeUsec.toNat
    monotonic := l.monotonicUsec.toNat
    bootId := l.bootId
    xorHash := refs.foldl (fun hash ref => hash ^^^ ref.hash) 0 }

private theorem matches_entryObject (hsq : l.seqnum < 2 ^ 64)
    (hrfs : List.Forall₂ (RefersTo ks) l.fields rf)
    (hvl : ∀ fi ∈ l.fields, journalFieldValid fi.key = true)
    (hds : (l.fields.map Field.key).Nodup) : Matches ks l (entryObject l rf, rf) :=
  ⟨rfl, hsq, rfl, rfl, rfl, hrfs, hvl, hds⟩

theorem Consistent.addEntry (hc : Consistent h L ks) (rc : EntryObject) (e : Nat) :
    Consistent (h.addEntry rc e) L ks :=
  { hc with
    header := ⟨hc.header.headerSize, ⟨hc.header.tables.dataOffset, hc.header.tables.dataSize,
      hc.header.tables.fieldOffset, hc.header.tables.fieldSize⟩, hc.header.tail,
      hc.header.arenaSize, hc.header.nObjects, hc.header.nData, hc.header.nFields,
      hc.header.nEntryArrays⟩
    all := ⟨hc.all.linked, hc.all.tail⟩ }

theorem WellFormedWith.append {new arr : List Kind}
    (hwf : WellFormedWith boot f log h L ks) (hc : Consistent h' L' (appended ks new rc rf arr))
    (hrep : Represents f' L' (appended ks new rc rf arr)) (hfx : h'.fixed = h.fixed)
    (htl : h'.tailEntryArrayOffset < 2 ^ 32) (hone : h'.tailEntryArrayNEntries = 1)
    (hr : Records L' (appended ks new rc rf arr) (log ++ [l]))
    (hmt : Matches (ks ++ new) l (rc, rf))
    (hslc : select isEntry (appended ks new rc rf arr) = select isEntry ks ++ [e])
    (he : e < 2 ^ 64) :
    WellFormedWith boot ((f'.write 0 (h'.addEntry rc e).encode).truncate
      (arenaEnd (appended ks new rc rf arr))) (log ++ [l]) (h'.addEntry rc e) L'
        (appended ks new rc rf arr) := by
  have hsq := hmt.seqnum
  have hhe : HeaderOf boot (h'.addEntry rc e) (appended ks new rc rf arr)
      (log ++ [l]) :=
    hwf.header.addEntry hfx hone hsq hmt.realtime hmt.monotonic hmt.bootId hslc
  have hft : (h'.addEntry rc e).Fits := by
    apply (hwf.fits.grown hfx hc htl (by rw [hone]; decide)).addEntry
    · have hn : h'.nEntries = log.length :=
        (congrArg JournalFileHeader.nEntries hfx).trans hwf.header.nEntries
      have hle : (entriesOf ks).length ≤ ks.length := length_filterMap_le _ _
      have hstp := length_add_le_stop journalHeaderSize ks
      have hbn := hwf.consistent.bound
      have hetr := hwf.records.entries.length_eq
      unfold arenaEnd at hbn
      omega
    · rw [hsq]
      exact hmt.seqnum_lt
    · rw [hmt.realtime]
      exact UInt64.toNat_lt _
    · rw [hmt.monotonic]
      exact UInt64.toNat_lt _
    · exact he
  have hln := hft.length_encode
  have hhl : (f'.write 0 (h'.addEntry rc e).encode).Holds 0 (h'.addEntry rc e).encode :=
    File.holds_write f' 0 (ne_nil_of_length hln (by decide))
  refine ⟨?_, hft, hhe, ?_, hc.addEntry rc e, hr⟩
  · apply hhl.truncate
    rw [hln, Nat.zero_add]
    exact header_le_arenaEnd _
  · exact (hrep.write_header hln).of_agreeBelow (File.agreeBelow_truncate _ (Nat.le_refl _))

def AppendError (h : JournalFileHeader) (ks : List Kind) (input : Input) (e : Errno) : Prop :=
  e = .busy ∧ h.state ≠ stateOnline ∨ Refused (arenaEnd ks + inputRoom input) input.fields e

/-- The file is well-formed, is open for appending, and its arena ends at the given offset or
before. -/
def Ready (boot : Id128) (f : File) (log : List Logged) (state : UInt8) (n : Nat) : Prop :=
  ∃ h L ks, WellFormedWith boot f log h L ks ∧ h.state = state ∧ arenaEnd ks ≤ n

/-- The references to a new entry, and the header. -/
theorem ensures_finish {new : List Kind}
    (hwf : WellFormedWith boot f log h L ks) (hnew : ∀ k ∈ new, ∃ fi ∈ l.fields, OfField fi k)
    (hfl : ∀ pay, .data pay ∈ ks ++ new → .field (fieldName pay) ∈ ks ++ new)
    (hmt : Matches (ks ++ new) l (rc, rf)) (hc : Consistent h₂ L₂ (ks ++ new ++ [.entry rc rf]))
    (hrep : Represents f₂ L₂ (ks ++ new ++ [.entry rc rf])) (hfx : h₂.fixed = h.fixed)
    (hlst : listed L₂ (ks ++ new ++ [.entry rc rf]) = listed L ks)
    (hE : ∀ e, TooLarge (arenaEnd (ks ++ new ++ [.entry rc rf]) + rf.length * arrayRoom +
      arrayRoom) e → E e) :
    (do
      let header ← appendDataEntryReferences (arenaEnd (ks ++ new)) h₂ rf
      let header ← appendGlobalEntryReference header (arenaEnd (ks ++ new))
      headerWrite (header.addEntry rc (arenaEnd (ks ++ new)))
      if (header.addEntry rc (arenaEnd (ks ++ new))).headerSize +
          (header.addEntry rc (arenaEnd (ks ++ new))).arenaSize ≤ int64Max then
        .truncate ((header.addEntry rc (arenaEnd (ks ++ new))).headerSize +
          (header.addEntry rc (arenaEnd (ks ++ new))).arenaSize) (pure ())
      else pure ()).Ensures sup f₂ E (fun _ f' => Ready boot f' (log ++ [l]) h.state
        (arenaEnd (ks ++ new ++ [Kind.entry rc rf]) + rf.length * arrayRoom +
          arrayRoom)) := by
  have hlt : arenaEnd (ks ++ new) < 2 ^ 64 := by
    have hbn := hc.bound
    rw [arenaEnd_concat] at hbn
    omega
  have hrfs : ∀ ref ∈ rf, ∃ pay,
      (ref.offset, Kind.data pay) ∈ objects (ks ++ new ++ [.entry rc rf]) := by
    intro ref href
    obtain ⟨fi, -, hr⟩ := forall₂_exists_left hmt.items href
    exact ⟨fi.payload, mem_objects_append hr.1⟩
  apply ensures_bind
  refine ((ensures_appendDataEntryReferences hc hrep hrfs
    (nodup_refs hmt.items hmt.valid hmt.distinct) (Nat.ne_of_gt (arenaEnd_pos _))
    hlt).weaken ?_).mono ?_
  · exact fun e he => hE e (he.mono (by omega))
  rintro h₃ f₃ ⟨L₃, ks₃, hg, hl₃⟩
  have hgr := hg.room
  apply ensures_bind
  refine ((ensures_appendGlobalEntryReference hg.consistent hg.represents _).weaken ?_).mono ?_
  · exact fun e he => hE e (he.mono (by omega))
  rintro h₄ f₄ ⟨hf₄, htl, hone, hc₄, hr₄⟩
  obtain ⟨arr, rfl, harr⟩ := hg.added
  have hre : Records (L₃.linkArray h₃.tailEntryArrayOffset
      (arenaEnd (ks ++ new ++ [.entry rc rf] ++ arr)))
      (appended ks new rc rf arr) (log ++ [l]) := by
    apply hwf.records.concat_entry hwf.consistent.entries hnew harr hmt hfl
    intro p hp
    rw [appended, listed_concat_global _ _ _ _ _ hp, hl₃, hlst]
  have hslc : select isEntry (appended ks new rc rf arr) =
      select isEntry ks ++ [arenaEnd (ks ++ new)] := by
    rw [select_appended]
    · rfl
    · intro k hk
      obtain ⟨fi, -, rfl | rfl⟩ := hnew k hk <;> rfl
    · intro k hk
      obtain ⟨d, -, rfl⟩ := harr k hk
      rfl
    · intro k hk
      cases k <;> first | rfl | cases hk
  have hus : h₄.headerSize + h₄.arenaSize = arenaEnd (appended ks new rc rf arr) := by
    have hle := header_le_arenaEnd (appended ks new rc rf arr)
    have hsz := hc₄.header.headerSize
    have har : h₄.arenaSize = arenaEnd (appended ks new rc rf arr) - _ := hc₄.header.arenaSize
    omega
  have hft : arenaEnd (appended ks new rc rf arr) ≤ int64Max := by
    have hbn : arenaEnd (appended ks new rc rf arr) < 2 ^ 63 := hc₄.bound
    unfold int64Max
    omega
  apply ensures_bind
  apply ensures_writeAt
  show (if h₄.headerSize + h₄.arenaSize ≤ int64Max then
    Program.truncate (h₄.headerSize + h₄.arenaSize) (pure ()) else pure ()).Ensures _ _ _ _
  have hfx' : h₄.fixed = h.fixed := hf₄.trans (hg.fixed.trans hfx)
  rw [hus, if_pos hft]
  refine ⟨_, _, _, hwf.append hc₄ hr₄ hfx' htl hone hre hmt hslc hlt, ?_, ?_⟩
  · have hst := congrArg JournalFileHeader.state hfx'
    exact hst
  · rw [appended, arenaEnd_concat, room_array]
    omega

/-- An append to a well-formed file. -/
theorem ensures_rustdJournalFileAppend (hwf : WellFormedWith boot f log h L ks) {input : Input}
    (hds : (input.fields.map Field.key).Nodup) :
    (rustdJournalFileAppend input).Ensures sup f (AppendError h ks input)
      (fun _ f' => Ready boot f' (log ++ [logged boot log input]) h.state
        (arenaEnd ks + inputRoom input)) := by
  have hrm := length_le_fieldsRoom input.fields
  have hc := hwf.consistent
  unfold rustdJournalFileAppend
  apply ensures_bind
  apply ensures_headerRead hwf.holds hwf.fits hwf.header hc.header.headerSize
  split
  · next hst => exact .inl ⟨rfl, hst⟩
  by_cases hme : input.fields.length * 16 ≤ int64Max
  swap
  · rw [memory, if_pos (Nat.lt_of_not_le hme)]
    refine .inr (.inl ⟨.inr (.inl rfl), ?_⟩)
    unfold int64Max at hme
    unfold uint32Max inputRoom
    omega
  apply ensures_bind
  apply ensures_memory hme
  apply ensures_bind
  refine ((ensures_appendDataObjects hc hwf.represents input.fields).weaken ?_).mono ?_
  · exact fun e he => .inr (he.mono (by unfold inputRoom; omega) (fun _ hmem => hmem))
  rintro ⟨h₁, rf⟩ f₁ ⟨L₁, ks₁, hg, hlst, hrfs, hvl⟩
  have hln : input.fields.length = rf.length := hrfs.length_eq
  have hgr := hg.room
  dsimp only
  rw [if_neg (by unfold uint64Max entryBase; unfold int64Max at hme; omega)]
  have hsq : h₁.tailEntrySeqnum = lastSeqnum log :=
    (congrArg JournalFileHeader.tailEntrySeqnum hg.fixed).trans hwf.header.tailSeqnum
  have hbo : ∀ k, (h₁.addObject ks₁ k).bootId = lastBoot boot log := by
    intro k
    have hadd : (h₁.addObject ks₁ k).tailEntryBootId = h₁.tailEntryBootId := by
      simp only [JournalFileHeader.addObject]
    have hls : h₁.tailEntryBootId = (lastBoot boot log).val :=
      (congrArg JournalFileHeader.tailEntryBootId hg.fixed).trans hwf.header.tailBoot
    exact JournalFileHeader.bootId_eq (hadd.trans hls)
  have hmt : Matches ks₁ (logged boot log input)
      (entryObject (logged boot log input) rf, rf) :=
    matches_entryObject (assignSeqnum_lt _ (UInt64.toNat_lt _)) hrfs hvl hds
  apply ensures_newEntry (entryObject (logged boot log input) rf) hg.consistent hg.represents
    (fun r => rfl)
  · unfold int64Max at hme
    unfold entryBase
    omega
  · intro k
    rw [hsq, hbo]
    rfl
  · intro hfu
    refine .inr (.inl ⟨.inl rfl, ?_⟩)
    rw [Kind.room, Kind.size, ← hln] at hfu
    unfold inputRoom
    omega
  · intro f₂ hc₂ h₂
    obtain ⟨new, rfl, hnew⟩ := hg.added
    dsimp only
    rw [hsq, hbo]
    have hent : (Kind.entry (entryObject (logged boot log input) rf) rf).room =
        (entryBase + input.fields.length * 16 + 7) / 8 * 8 := by
      rw [Kind.room, Kind.size, hln]
    have hto : arenaEnd (ks ++ new ++ [.entry (entryObject (logged boot log input) rf) rf]) +
        rf.length * arrayRoom + arrayRoom ≤ arenaEnd ks + inputRoom input := by
      rw [arenaEnd_concat, ← hln, hent]
      unfold inputRoom
      omega
    refine (ensures_finish hwf hnew hg.consistent.fields.hasField hmt hc₂ h₂
      ((h₁.fixed_addObject _ _).trans hg.fixed) ((listed_concat rfl rfl).trans hlst) ?_).mono ?_
    · exact fun e he => .inr (.inl (he.mono hto))
    · rintro _ f₃ ⟨h₃, L₃, ks₃, hw₃, hst, hend⟩
      exact ⟨h₃, L₃, ks₃, hw₃, hst, Nat.le_trans hend hto⟩

end

end Rustd.JournalFile
