import Rustd.JournalFile.EntryChains

/-!
# Consistent journal files

The invariant of a journal file while entries are appended, of the header in memory, the links and
the list of objects; and what the functions of the source that look objects up and append blank
ones do to a file that is consistent.
-/

namespace Rustd.JournalFile

open Base Program List

def tableAt (data : Bool) : Nat := if data then 272 else 16672

def JournalFileHeader.fixed (h : JournalFileHeader) : JournalFileHeader :=
  { h with
    tailObjectOffset := 0, nObjects := 0, arenaSize := 0, nData := 0, nFields := 0,
    nEntryArrays := 0, entryArrayOffset := 0, tailEntryArrayOffset := 0,
    tailEntryArrayNEntries := 0 }

structure TablesAt (h : JournalFileHeader) : Prop where
  dataOffset : h.dataHashTableOffset = tableAt true + 16
  dataSize : h.dataHashTableSize = buckets true * 16
  fieldOffset : h.fieldHashTableOffset = tableAt false + 16
  fieldSize : h.fieldHashTableSize = buckets false * 16

structure HeaderFor (h : JournalFileHeader) (ks : List Kind) : Prop where
  headerSize : h.headerSize = journalHeaderSize
  tables : TablesAt h
  tail : ∃ k, (h.tailObjectOffset, k) ∈ objects ks ∧ h.tailObjectOffset + k.room = arenaEnd ks
  arenaSize : h.arenaSize = arenaEnd ks - journalHeaderSize
  nObjects : h.nObjects = ks.length
  nData : h.nData = (payloads true ks).length
  nFields : h.nFields = (payloads false ks).length
  nEntryArrays : h.nEntryArrays = ks.countP isArray

def HasTables (ks : List Kind) : Prop :=
  ∃ rest, ks = .table true :: .table false :: rest ∧ ∀ data, .table data ∉ rest

structure Consistent (h : JournalFileHeader) (L : Links) (ks : List Kind) : Prop where
  tables : HasTables ks
  header : HeaderFor h ks
  bound : arenaEnd ks < 2 ^ 63
  small : L.Small
  hash : HashChains L ks
  fields : FieldLists L ks
  entries : EntryLists L ks
  all : GlobalList h L ks

section

variable {h h' : JournalFileHeader} {ks : List Kind} {k : Kind}

theorem TablesAt.of_fixed (ht : TablesAt h) (hfx : h'.fixed = h.fixed) : TablesAt h' where
  dataOffset := (congrArg JournalFileHeader.dataHashTableOffset hfx).trans ht.dataOffset
  dataSize := (congrArg JournalFileHeader.dataHashTableSize hfx).trans ht.dataSize
  fieldOffset := (congrArg JournalFileHeader.fieldHashTableOffset hfx).trans ht.fieldOffset
  fieldSize := (congrArg JournalFileHeader.fieldHashTableSize hfx).trans ht.fieldSize

theorem HeaderFor.concat (hh : HeaderFor h ks) (k : Kind) (hfx : h'.fixed = h.fixed)
    (htl : h'.tailObjectOffset = arenaEnd ks)
    (har : h'.arenaSize = arenaEnd ks + k.room - journalHeaderSize)
    (ho : h'.nObjects = h.nObjects + 1)
    (hd : h'.nData = h.nData + (k.hashed true).toList.length)
    (hn : h'.nFields = h.nFields + (k.hashed false).toList.length)
    (harr : h'.nEntryArrays = h.nEntryArrays + if isArray k then 1 else 0) :
    HeaderFor h' (ks ++ [k]) where
  headerSize := (congrArg JournalFileHeader.headerSize hfx).trans hh.headerSize
  tables := hh.tables.of_fixed hfx
  tail := by
    refine ⟨k, ?_, ?_⟩
    · rw [htl]
      exact mem_objects_concat.mpr (.inr ⟨rfl, rfl⟩)
    · rw [htl, arenaEnd_concat]
  arenaSize := by rw [har, arenaEnd_concat]
  nObjects := by rw [ho, hh.nObjects, length_append, length_singleton]
  nData := by rw [hd, hh.nData, payloads_concat, length_append]
  nFields := by rw [hn, hh.nFields, payloads_concat, length_append]
  nEntryArrays := by rw [harr, hh.nEntryArrays, countP_append, countP_singleton]

theorem HasTables.concat (ht : HasTables ks) (hk : ∀ d, k ≠ .table d) : HasTables (ks ++ [k]) := by
  obtain ⟨l, rfl, hrest⟩ := ht
  refine ⟨l ++ [k], rfl, ?_⟩
  intro d hmem
  rcases mem_append.mp hmem with hmem | hmem
  · exact hrest d hmem
  · exact hk d (mem_singleton.mp hmem).symm

theorem HasTables.mem_objects (ht : HasTables ks) (d : Bool) :
    (tableAt d, .table d) ∈ objects ks := by
  obtain ⟨l, rfl, -⟩ := ht
  cases d with
  | true => exact mem_cons_self
  | false => exact mem_cons_of_mem _ mem_cons_self

theorem HasTables.unique (ht : HasTables ks) {data : Bool}
    (hp : (p, .table data) ∈ objects ks) : p = tableAt data := by
  obtain ⟨l, rfl, hrest⟩ := ht
  rw [objects, place, place, mem_cons, mem_cons] at hp
  rcases hp with heq | heq | hmem
  · obtain ⟨rfl, htb⟩ := Prod.mk.inj heq
    obtain rfl := Kind.table.inj htb
    rfl
  · obtain ⟨rfl, htb⟩ := Prod.mk.inj heq
    obtain rfl := Kind.table.inj htb
    rfl
  · exact absurd (mem_of_mem_place hmem) (hrest data)

end

section

variable {h : JournalFileHeader} {L : Links} {ks : List Kind} {f : File} {sup : Bool}
  {E : Errno → Prop}

theorem ensures_hashItemFor (ht : TablesAt h) (hta : HasTables ks) (hL : L.Small)
    (hrep : Represents f L ks) (data : Bool) (hash : Nat)
    (hQ : Q (L.bucket data (hash % buckets data), tableAt data + 16 + hash % buckets data * 16) f) :
    (hashItemFor h data hash).Ensures sup f E Q := by
  have htb := hrep.stored _ _ (hta.mem_objects data)
  have hb : hash % buckets data < buckets data := Nat.mod_lt _ (buckets_pos data)
  have hhl := htb.2 (hash % buckets data) hb
  have hde := HashItem.decode_encode (hL.bucketHead data (hash % buckets data))
    (hL.bucketTail data (hash % buckets data))
  have hoff : (if data then h.dataHashTableOffset else h.fieldHashTableOffset) =
      tableAt data + 16 := by
    cases data
    · exact ht.fieldOffset
    · exact ht.dataOffset
  have hbu : (if data then h.dataHashTableSize else h.fieldHashTableSize) / 16 =
      buckets data := by
    cases data
    · rw [if_neg Bool.false_ne_true, ht.fieldSize]
      rfl
    · rw [if_pos rfl, ht.dataSize]
      rfl
  have hvl : ¬(tableAt data + 16 = 0 ∨ buckets data = 0) := by
    have hpos := buckets_pos data
    omega
  unfold hashItemFor
  dsimp only
  rw [hoff, hbu, if_neg hvl]
  apply ensures_bind
  apply ensures_readAt (hhl.read?_of_length (HashItem.length_encode _))
  rw [hde]
  exact hQ

private theorem Kind.type_ne_unused (k : Kind) : k.type ≠ .unused := by
  cases k with
  | table data => cases data <;> exact nofun
  | field | data | entry | array => exact nofun

private theorem ObjectType.code_valid (t : ObjectType) (h : t ≠ .unused) :
    ¬(t.code ≤ ObjectType.unused.code) ∧ ¬(ObjectType.entryArray.code < t.code) := by
  cases t <;> first | exact absurd rfl h | decide

variable {p : Nat} {Q : JournalFileHeader × Nat → File → Prop}

private theorem ensures_readObjectHeader (hbn : arenaEnd ks < 2 ^ 63) (hrep : Represents f L ks)
    (hmem : (p, k) ∈ objects ks) {Q : ObjectHeader → File → Prop}
    (hQ : Q (k.type.header k.size) f) : (readObjectHeader p).Ensures sup f E Q := by
  have hhl := (hrep.stored p k hmem).header
  have hsz := size_lt hbn hmem
  have hde := decode_encode_header k.type (Nat.lt_trans hsz (by decide))
  have hvl : ¬((k.type.header k.size).type ≤ ObjectType.unused.code ∨
      ObjectType.entryArray.code < (k.type.header k.size).type ∨
      (k.type.header k.size).size < 16) := by
    have hge := k.size_ge
    have htp := k.type.code_valid k.type_ne_unused
    rintro (hus | hother | hsml)
    · exact htp.1 hus
    · exact htp.2 hother
    · exact Nat.not_lt.mpr hge hsml
  unfold readObjectHeader
  apply ensures_bind
  apply ensures_readAt (hhl.read?_of_length (length_encode_header _ _))
  dsimp only
  rw [hde, if_neg hvl]
  exact hQ

theorem ensures_nextOffset (htl : ∃ k, (h.tailObjectOffset, k) ∈ objects ks ∧
      h.tailObjectOffset + k.room = arenaEnd ks) (hbn : arenaEnd ks < 2 ^ 63)
    (hrep : Represents f L ks) {Q : Nat → File → Prop} (hQ : Q (arenaEnd ks) f) :
    (nextOffset h).Ensures sup f E Q := by
  obtain ⟨k, hmem, hend⟩ := htl
  have hge : journalHeaderSize ≤ h.tailObjectOffset := (bounds_of_mem_place hmem).1
  have hne : h.tailObjectOffset ≠ 0 := by
    unfold journalHeaderSize at hge
    omega
  unfold nextOffset
  rw [if_neg hne]
  apply ensures_bind
  apply ensures_readObjectHeader hbn hrep hmem
  have hal : align64 (k.type.header k.size).size = k.room := Kind.align64_size (size_lt hbn hmem)
  have hft : ¬(uint64Max - k.room < h.tailObjectOffset) := by
    unfold uint64Max
    omega
  rw [hal, if_neg hft, hend]
  exact hQ

theorem ensures_allocateRange {off s : Nat} (hsz : 0 < s)
    (hE : uint32Max < off + s → E .fbig) {Q : Unit → File → Prop}
    (hQ : ∀ f', File.AgreeBelow off f f' → off + s ≤ f'.size →
      (f.size ≤ off → f'.size = off + s ∧ ∀ i, off ≤ i → f'.byte i = 0) →
      off + s ≤ int64Max → Q () f') :
    (allocateRange off s).Ensures sup f E Q := by
  unfold allocateRange
  split
  · next hfu =>
    apply hE
    unfold uint64Max int64Max at hfu
    unfold uint32Max
    omega
  · next hft =>
    have hle : off + s ≤ int64Max := by omega
    rw [Ensures, exec]
    cases sup with
    | true =>
      refine hQ _ (File.agreeBelow_reserve off f (off + s)) (Nat.le_max_right _ _) ?_ hle
      intro hend
      exact ⟨Nat.max_eq_right (by omega), fun i hi => f.blank i (by omega)⟩
    | false =>
      rw [if_neg Bool.false_ne_true, exec]
      refine hQ _ ?_ ?_ ?_ hle
      · exact (File.agreeBelow_truncate f (Nat.le_add_right off s)).trans
          (File.agreeBelow_write _ [0] (by omega))
      · exact File.le_size_write (f.truncate (off + s)) _ _
      intro hend
      exact ⟨File.size_write_of_le (by
        show off + s - 1 + 1 ≤ off + s
        omega), File.byte_write_zero (fun i hi => by
          show (if i < off + s then f.byte i else 0) = 0
          rw [f.blank i (by omega), ite_self])⟩

def JournalFileHeader.addObject (h : JournalFileHeader) (ks : List Kind) (k : Kind) :
    JournalFileHeader :=
  { h with
    tailObjectOffset := arenaEnd ks
    nObjects := h.nObjects + 1
    arenaSize := arenaEnd ks + k.room - journalHeaderSize }

theorem ensures_appendZeroObject_at
    (hnx : ∀ {Q : Nat → File → Prop}, Q p f → (nextOffset h).Ensures sup f E Q) (k : Kind)
    (hsz : k.size ≤ 2 ^ 63 + 2 ^ 32) (hE : uint32Max < p + k.room → E .fbig)
    (hQ : ∀ f', File.AgreeBelow p f f' → p + k.room ≤ f'.size →
      f'.Holds p (k.type.header k.size).encode →
      (f.size ≤ p → f'.size = p + k.room ∧ ∀ i, p + 16 ≤ i → f'.byte i = 0) →
      p + k.room < 2 ^ 63 →
      Q ({ h with
        tailObjectOffset := p, nObjects := h.nObjects + 1,
        arenaSize := p + k.room - h.headerSize }, p) f') :
    (appendZeroObject h k.type k.size).Ensures sup f E Q := by
  have hal : align64 k.size = k.room := by
    unfold align64 Kind.room
    rw [Nat.mod_eq_of_lt (by omega)]
  have hln := length_encode_header k.type k.size
  have hrm : 16 ≤ k.room := Nat.le_trans k.size_ge k.size_le_room
  unfold appendZeroObject
  apply ensures_bind
  apply hnx
  rw [hal]
  split
  · next hfu =>
    apply hE
    unfold uint64Max at hfu
    unfold uint32Max
    omega
  · apply ensures_bind
    apply ensures_allocateRange k.room_pos hE
    intro f' hagr hrc hbl hle
    apply ensures_bind
    apply ensures_writeAt
    apply hQ
    · exact hagr.trans (File.agreeBelow_write f' _ (Nat.le_refl _))
    · exact Nat.le_trans hrc (File.le_size_write f' _ _)
    · exact File.holds_write f' p (ne_nil_of_length_eq_add_one hln)
    · intro hend
      obtain ⟨hsz', hzr⟩ := hbl hend
      rw [File.size_write_of_le (by rw [hln]; omega), hsz']
      refine ⟨rfl, fun i hi => ?_⟩
      rw [File.byte_write_of_ge (by rw [hln]; exact hi), hzr i (by omega)]
    · unfold int64Max at hle
      omega

/-- A blank object is appended: the arena is as before, and behind it there is room for the object,
with its header. -/
theorem ensures_appendZeroObject (hh : HeaderFor h ks) (hbn : arenaEnd ks < 2 ^ 63)
    (hrep : Represents f L ks) (k : Kind) (hsz : k.size ≤ 2 ^ 63 + 2 ^ 32)
    (hE : uint32Max < arenaEnd ks + k.room → E .fbig)
    (hQ : ∀ f', File.AgreeBelow (arenaEnd ks) f f' → arenaEnd ks + k.room ≤ f'.size →
      arenaEnd ks + k.room < 2 ^ 63 → Q (h.addObject ks k, arenaEnd ks) f') :
    (appendZeroObject h k.type k.size).Ensures sup f E Q := by
  apply ensures_appendZeroObject_at (ensures_nextOffset hh.tail hbn hrep) k hsz hE
  intro f' hagr hrc _ _ hbig
  have hre := hQ f' hagr hrc hbig
  unfold JournalFileHeader.addObject at hre
  rw [← hh.headerSize] at hre
  exact hre

end

end Rustd.JournalFile
