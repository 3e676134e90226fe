import Rustd.Base.Chain
import Rustd.JournalFile.Append

/-!
# The arena of a journal file

What a journal file stands for: a list of objects, one after the other behind the header, with the
links between them. The objects say what never changes in the file, the links what does. `Stored`
relates both to the bytes, and each write of the source changes one link.
-/

namespace Rustd.JournalFile

open Base List

def buckets (data : Bool) : Nat := if data then dataHashTableBuckets else fieldHashTableBuckets

def tableType (data : Bool) : ObjectType := if data then .dataHashTable else .fieldHashTable

/-- The objects of a file, without their links. A hash table is that of data or of fields. An
array belongs to the data object at the offset `owner`, or to the list of all entries if that is 0;
the owner is not stored. -/
inductive Kind where
  | table (dataTable : Bool)
  | field (name : List UInt8)
  | data (payload : List UInt8)
  | entry (record : EntryObject) (items : List DataReference)
  | array (owner item : Nat)
  deriving DecidableEq

namespace Kind

def type : Kind → ObjectType
  | table dataTable => tableType dataTable
  | field _ => .field
  | data _ => .data
  | entry _ _ => .entry
  | array _ _ => .entryArray

def size : Kind → Nat
  | table dataTable => 16 + buckets dataTable * 16
  | field name => fieldBase + name.length
  | data payload => dataBase + payload.length
  | entry _ items => entryBase + items.length * 16
  | array _ _ => arrayBase + 8

def room (k : Kind) : Nat := (k.size + 7) / 8 * 8

variable (k : Kind)

theorem size_ge : 16 ≤ k.size := by
  cases k <;> simp only [size, fieldBase, dataBase, entryBase, arrayBase] <;> omega

theorem size_le_room : k.size ≤ k.room := by
  unfold room
  omega

theorem room_pos : 0 < k.room := by
  have hge := k.size_ge
  have hle := k.size_le_room
  omega

theorem align64_size {k : Kind} (h : k.size < 2 ^ 63) : align64 k.size = k.room := by
  unfold align64 room
  rw [Nat.mod_eq_of_lt (by omega)]

end Kind

section

def place : Nat → List Kind → List (Nat × Kind)
  | _, [] => []
  | start, k :: ks => (start, k) :: place (start + k.room) ks

def stop : Nat → List Kind → Nat
  | start, [] => start
  | start, k :: ks => stop (start + k.room) ks

variable {k k' : Kind} {p : Nat} (start : Nat) (ks ks' : List Kind)

private theorem start_le_stop : start ≤ stop start ks := by
  induction ks generalizing start with
  | nil => exact Nat.le_refl start
  | cons k ks ih => exact Nat.le_trans (Nat.le_add_right start k.room) (ih _)

theorem place_append : place start (ks ++ ks') = place start ks ++ place (stop start ks) ks' := by
  induction ks generalizing start with
  | nil => rfl
  | cons k ks ih => rw [cons_append, place, place, ih, stop, cons_append]

private theorem stop_append : stop start (ks ++ ks') = stop (stop start ks) ks' := by
  induction ks generalizing start with
  | nil => rfl
  | cons k ks ih => rw [cons_append, stop, stop, ih]

private theorem stop_concat (k : Kind) : stop start (ks ++ [k]) = stop start ks + k.room := by
  rw [stop_append]
  rfl

theorem length_add_le_stop : start + ks.length ≤ stop start ks := by
  induction ks generalizing start with
  | nil => exact Nat.le_refl start
  | cons k ks ih =>
    have hrm := k.room_pos
    have hle := ih (start + k.room)
    rw [length_cons, stop]
    omega

theorem bounds_of_mem_place {start : Nat} {ks : List Kind} (h : (p, k) ∈ place start ks) :
    start ≤ p ∧ p + k.room ≤ stop start ks := by
  induction ks generalizing start with
  | nil => exact absurd h not_mem_nil
  | cons k' ks ih =>
    rw [place, mem_cons] at h
    rcases h with h | h
    · obtain ⟨rfl, rfl⟩ := Prod.mk.inj h
      exact ⟨Nat.le_refl p, start_le_stop _ ks⟩
    · obtain ⟨hle, hstp⟩ := ih h
      exact ⟨Nat.le_trans (Nat.le_add_right start k'.room) hle, hstp⟩

private theorem pairwise_place : (place start ks).Pairwise (fun a b => a.1 + a.2.room ≤ b.1) := by
  induction ks generalizing start with
  | nil => exact List.Pairwise.nil
  | cons k ks ih =>
    rw [place, pairwise_cons]
    refine ⟨?_, ih _⟩
    rintro ⟨p, k'⟩ h
    exact (bounds_of_mem_place h).1

theorem place_apart {start q : Nat} {ks : List Kind} (h : (p, k) ∈ place start ks)
    (h' : (q, k') ∈ place start ks) : (p, k) = (q, k') ∨ p + k.room ≤ q ∨ q + k'.room ≤ p :=
  pairwise_cases (pairwise_place start ks) h h'

theorem map_snd_place : (place start ks).map Prod.snd = ks := by
  induction ks generalizing start with
  | nil => rfl
  | cons k ks ih => rw [place, map_cons, ih]

theorem mem_of_mem_place {start : Nat} {ks : List Kind} (h : (p, k) ∈ place start ks) : k ∈ ks := by
  rw [← map_snd_place start ks]
  exact List.mem_map_of_mem h

theorem exists_mem_place {ks : List Kind} (h : k ∈ ks) : ∃ p, (p, k) ∈ place start ks := by
  rw [← map_snd_place start ks] at h
  obtain ⟨⟨p, k⟩, hmem, rfl⟩ := List.mem_map.mp h
  exact ⟨p, hmem⟩

theorem place_unique {start : Nat} {ks : List Kind} (h : (p, k) ∈ place start ks)
    (h' : (p, k') ∈ place start ks) : k = k' := by
  have hrm := k.room_pos
  have hrm' := k'.room_pos
  rcases place_apart h h' with heq | hlt | hlt
  · exact (Prod.mk.inj heq).2
  · omega
  · omega

def objects (ks : List Kind) : List (Nat × Kind) := place journalHeaderSize ks

def arenaEnd (ks : List Kind) : Nat := stop journalHeaderSize ks

private theorem objects_concat (k : Kind) :
    objects (ks ++ [k]) = objects ks ++ [(arenaEnd ks, k)] := place_append _ _ _

theorem arenaEnd_concat (k : Kind) :
    arenaEnd (ks ++ [k]) = arenaEnd ks + k.room := stop_concat _ _ _

theorem header_le_arenaEnd : journalHeaderSize ≤ arenaEnd ks := start_le_stop _ ks

theorem arenaEnd_pos : 0 < arenaEnd ks :=
  Nat.lt_of_lt_of_le (by decide : 0 < journalHeaderSize) (header_le_arenaEnd ks)

theorem mem_objects_concat {ks : List Kind} :
    (p, k') ∈ objects (ks ++ [k]) ↔ (p, k') ∈ objects ks ∨ p = arenaEnd ks ∧ k' = k := by
  rw [objects_concat, mem_append, mem_singleton, Prod.mk.injEq]

theorem lt_arenaEnd {ks : List Kind} (h : (p, k) ∈ objects ks) : p < arenaEnd ks := by
  have hrm := k.room_pos
  have hbo := (bounds_of_mem_place h).2
  unfold arenaEnd
  omega

end

section

def select (P : Kind → Bool) (ks : List Kind) : List Nat :=
  ((objects ks).filter (P ·.2)).map Prod.fst

variable {P Q : Kind → Bool} {ks : List Kind} {k : Kind} {p : Nat}

theorem select_concat (P : Kind → Bool) (ks : List Kind) (k : Kind) :
    select P (ks ++ [k]) = select P ks ++ if P k then [arenaEnd ks] else [] := by
  rw [select, select, objects_concat, filter_append, map_append]
  by_cases h : P k <;> simp [h]

theorem select_concat_of_neg (h : P k = false) : select P (ks ++ [k]) = select P ks := by
  rw [select_concat, h, if_neg Bool.false_ne_true, append_nil]

theorem select_concat_of_pos (h : P k = true) :
    select P (ks ++ [k]) = select P ks ++ [arenaEnd ks] := by
  rw [select_concat, if_pos h]

theorem mem_select : p ∈ select P ks ↔ ∃ k, (p, k) ∈ objects ks ∧ P k = true := by
  simp [select]

theorem lt_arenaEnd_of_mem_select (h : p ∈ select P ks) : p < arenaEnd ks := by
  obtain ⟨k, hk, -⟩ := mem_select.mp h
  exact lt_arenaEnd hk

theorem length_select_le (P : Kind → Bool) (ks : List Kind) :
    (select P ks).length ≤ arenaEnd ks := by
  have hflt : (select P ks).length ≤ ks.length := by
    have hpl := congrArg List.length (map_snd_place journalHeaderSize ks)
    rw [length_map] at hpl
    rw [select, length_map, ← hpl]
    exact length_filter_le _ _
  have hln := length_add_le_stop journalHeaderSize ks
  unfold arenaEnd
  omega

theorem pairwise_select (P : Kind → Bool) (ks : List Kind) : (select P ks).Pairwise (· < ·) := by
  rw [select, pairwise_map]
  apply List.Pairwise.filter
  apply List.Pairwise.imp _ (pairwise_place journalHeaderSize ks)
  rintro ⟨p, k⟩ ⟨q, k'⟩ h
  have hrm := k.room_pos
  dsimp only at h ⊢
  omega

theorem nodup_select (P : Kind → Bool) (ks : List Kind) : (select P ks).Nodup :=
  (pairwise_select P ks).imp Nat.ne_of_lt

theorem not_mem_select (h : (p, k) ∈ objects ks) (hP : P k = false) : p ∉ select P ks := by
  intro hmem
  obtain ⟨k', hk', hP'⟩ := mem_select.mp hmem
  rw [place_unique h hk', hP'] at hP
  cases hP

end

section

/-- The links between the objects, by the offset of the object, or by the table and the number of
the bucket. -/
structure Links where
  bucket : Bool → Nat → HashItem
  nextHash : Nat → Nat
  headData : Nat → Nat
  nextField : Nat → Nat
  entryOffset : Nat → Nat
  entryArray : Nat → Nat
  nEntries : Nat → Nat
  nextArray : Nat → Nat

namespace Links

def field (L : Links) (p : Nat) (name : List UInt8) : FieldObject :=
  { object := ObjectType.field.header (fieldBase + name.length)
    hash := journalHash64 name
    nextHashOffset := L.nextHash p
    headDataOffset := L.headData p }

def data (L : Links) (p : Nat) (payload : List UInt8) : DataObject :=
  { object := ObjectType.data.header (dataBase + payload.length)
    hash := journalHash64 payload
    nextHashOffset := L.nextHash p
    nextFieldOffset := L.nextField p
    entryOffset := L.entryOffset p
    entryArrayOffset := L.entryArray p
    nEntries := L.nEntries p }

def array (L : Links) (p : Nat) : EntryArrayObject :=
  { object := ObjectType.entryArray.header (arrayBase + 8), nextEntryArrayOffset := L.nextArray p }

end Links

def DataReference.item (ref : DataReference) : EntryItem :=
  { objectOffset := ref.offset, hash := ref.hash }

def encodeItems (items : List DataReference) : List UInt8 :=
  items.flatMap (·.item.encode)

/-- The object stands at the offset, with its links. -/
def Stored (f : File) (L : Links) (p : Nat) : Kind → Prop
  | .table data =>
    f.Holds p ((tableType data).header (16 + buckets data * 16)).encode ∧
      ∀ b, b < buckets data → f.Holds (p + 16 + b * 16) (L.bucket data b).encode
  | .field name => f.Holds p ((L.field p name).encode ++ name)
  | .data payload => f.Holds p ((L.data p payload).encode ++ payload)
  | .entry record items =>
    record.object = ObjectType.entry.header (entryBase + items.length * 16) ∧
      f.Holds p (record.encode ++ encodeItems items)
  | .array _ item => f.Holds p ((L.array p).encode ++ word item)

structure Represents (f : File) (L : Links) (ks : List Kind) : Prop where
  reaches : arenaEnd ks ≤ f.size
  stored : ∀ p k, (p, k) ∈ objects ks → Stored f L p k

variable (L : Links) (p : Nat)

theorem Links.length_field (u : List UInt8) : (L.field p u).encode.length = fieldBase := by
  simp [FieldObject.encode, Links.field, length_encode_header, fieldBase]

theorem Links.length_data (pay : List UInt8) : (L.data p pay).encode.length = dataBase := by
  simp [DataObject.encode, Links.data, length_encode_header, dataBase]

theorem Links.length_array : (L.array p).encode.length = arrayBase := by
  simp [EntryArrayObject.encode, Links.array, length_encode_header, arrayBase]

private theorem length_encodeItems (xs : List DataReference) :
    (encodeItems xs).length = xs.length * 16 := by
  induction xs with
  | nil => rfl
  | cons ref xs ih =>
    rw [encodeItems, flatMap_cons, length_append, length_cons]
    rw [encodeItems] at ih
    rw [ih]
    simp only [EntryItem.encode, length_flatten, map_cons, map_nil, length_word, sum_cons, sum_nil]
    omega

theorem length_encode_entry (rc : EntryObject)
    (h : rc.object = ObjectType.entry.header s) : rc.encode.length = entryBase := by
  simp [EntryObject.encode, h, length_encode_header, rc.bootId.property, entryBase]

theorem Stored.congr {L : Links} {p : Nat} (h : Stored f L p k) (hsz : p + k.size ≤ g.size)
    (hbt : ∀ i, p ≤ i → i < p + k.size → g.byte i = f.byte i) : Stored g L p k := by
  have hpr : ∀ {off : Nat} {bytes : List UInt8}, f.Holds off bytes → p ≤ off →
      off + bytes.length ≤ p + k.size → g.Holds off bytes := by
    intro off bytes hhl hle hend
    exact hhl.congr (by omega) (fun i hi hlt => hbt i (by omega) (by omega))
  cases k with
  | table data =>
    refine ⟨hpr h.1 (Nat.le_refl p) ?_, fun b hb => hpr (h.2 b hb) ?_ ?_⟩
    · rw [length_encode_header]
      exact Nat.add_le_add_left (Kind.size_ge _) p
    · omega
    rw [HashItem.length_encode]
    simp only [Kind.size]
    omega
  | field name =>
    refine hpr h (Nat.le_refl p) ?_
    rw [length_append, Links.length_field]
    exact Nat.le_refl _
  | data payload =>
    refine hpr h (Nat.le_refl p) ?_
    rw [length_append, Links.length_data]
    exact Nat.le_refl _
  | entry record items =>
    refine ⟨h.1, hpr h.2 (Nat.le_refl p) ?_⟩
    rw [length_append, length_encode_entry record h.1, length_encodeItems]
    exact Nat.le_refl _
  | array owner item =>
    refine hpr h (Nat.le_refl p) ?_
    rw [length_append, Links.length_array, length_word]
    exact Nat.le_refl _

end

end Rustd.JournalFile
