import Rustd.JournalFile.Arena

/-!
# Changing the links of a journal file

One write of the source changes the links of one object. The other objects lie elsewhere, so the
file represents the same objects with the links changed in that place.
-/

namespace Rustd.JournalFile

open Base List Function

namespace Links

variable (L : Links) (t q : Nat)

def setNextHash : Links := { L with nextHash := update L.nextHash t q }

def setHeadData : Links := { L with headData := update L.headData t q }

def setNextField : Links := { L with nextField := update L.nextField t q }

def setNextArray : Links := { L with nextArray := update L.nextArray t q }

def setEntries (entry array count : Nat) : Links :=
  { L with
    entryOffset := update L.entryOffset t entry
    entryArray := update L.entryArray t array
    nEntries := update L.nEntries t count }

def setBucket (data : Bool) (b : Nat) (item : HashItem) : Links :=
  { L with bucket := fun d c => if d = data ∧ c = b then item else L.bucket d c }

structure SameAt (L L' : Links) (p : Nat) : Prop where
  bucket : L'.bucket = L.bucket
  field : ∀ name, L'.field p name = L.field p name
  data : ∀ payload, L'.data p payload = L.data p payload
  array : L'.array p = L.array p

variable {L t q} {p : Nat}

theorem SameAt.refl (L : Links) (p : Nat) : SameAt L L p :=
  ⟨rfl, fun _ => rfl, fun _ => rfl, rfl⟩

private theorem sameAt_setNextHash (h : p ≠ t) : SameAt L (L.setNextHash t q) p := by
  constructor <;> simp [setNextHash, field, data, array, update_of_ne h]

private theorem sameAt_setHeadData (h : p ≠ t) : SameAt L (L.setHeadData t q) p := by
  constructor <;> simp [setHeadData, field, data, array, update_of_ne h]

theorem sameAt_setNextField (h : p ≠ t) : SameAt L (L.setNextField t q) p := by
  constructor <;> simp [setNextField, field, data, array, update_of_ne h]

private theorem sameAt_setNextArray (h : p ≠ t) : SameAt L (L.setNextArray t q) p := by
  constructor <;> simp [setNextArray, field, data, array, update_of_ne h]

private theorem sameAt_setEntries (h : p ≠ t) : SameAt L (L.setEntries t e a n) p := by
  constructor <;> simp [setEntries, field, data, Links.array, update_of_ne h]

end Links

variable {f g : File} {L L' : Links} {ks : List Kind} {p t q : Nat} {k : Kind}

theorem Stored.of_sameAt (h : Stored f L p k) (hsa : Links.SameAt L L' p) : Stored f L' p k := by
  cases k with
  | table data => exact ⟨h.1, by rw [hsa.bucket]; exact h.2⟩
  | field name =>
    show f.Holds p ((L'.field p name).encode ++ name)
    rw [hsa.field]
    exact h
  | data payload =>
    show f.Holds p ((L'.data p payload).encode ++ payload)
    rw [hsa.data]
    exact h
  | entry record items => exact h
  | array owner item =>
    show f.Holds p ((L'.array p).encode ++ word item)
    rw [hsa.array]
    exact h

theorem Stored.header (h : Stored f L p k) : f.Holds p (k.type.header k.size).encode := by
  cases k with
  | table data => exact h.1
  | field name =>
    rw [Stored, Links.field, FieldObject.encode, flatten_cons, append_assoc] at h
    exact h.left
  | data payload =>
    rw [Stored, Links.data, DataObject.encode, flatten_cons, append_assoc] at h
    exact h.left
  | entry record items =>
    obtain ⟨hob, hhl⟩ := h
    rw [EntryObject.encode, flatten_cons, append_assoc, hob] at hhl
    exact hhl.left
  | array owner item =>
    rw [Stored, Links.array, EntryArrayObject.encode, flatten_cons, append_assoc] at h
    exact h.left

variable {bs : List UInt8} {off : Nat}

theorem Stored.write_apart (h : Stored f L p k) (hsz : p + k.size ≤ f.size)
    (hap : off + bs.length ≤ p ∨ p + k.size ≤ off) : Stored (f.write off bs) L p k := by
  apply h.congr (Nat.le_trans hsz (File.le_size_write f off bs))
  intro i hle hlt
  rcases hap with hbf | haf
  · exact File.byte_write_of_ge (by omega)
  · exact File.byte_write_of_lt (by omega)

theorem Represents.le_size (h : Represents f L ks) (hmem : (p, k) ∈ objects ks) :
    p + k.size ≤ f.size := by
  have hbo := (bounds_of_mem_place hmem).2
  have hrm := k.size_le_room
  have hre := h.reaches
  unfold arenaEnd at hre
  omega

theorem Represents.of_agreeBelow (h : Represents f L ks)
    (hagr : File.AgreeBelow (arenaEnd ks) f g) : Represents g L ks := by
  refine ⟨hagr.size h.reaches, ?_⟩
  intro p k hmem
  have hbo := (bounds_of_mem_place hmem).2
  have hrm := k.size_le_room
  apply (h.stored p k hmem).congr
  · have hsz := hagr.size h.reaches
    unfold arenaEnd at hsz
    omega
  intro i _ hi
  apply hagr.byte
  unfold arenaEnd
  omega

private theorem Represents.write_object (h : Represents f L ks) (hmem : (t, k) ∈ objects ks)
    (hfr : t ≤ off) (hto : off + bs.length ≤ t + k.size)
    (hsa : ∀ p, p ≠ t → Links.SameAt L L' p) (hsd : Stored (f.write off bs) L' t k) :
    Represents (f.write off bs) L' ks := by
  refine ⟨Nat.le_trans h.reaches (File.le_size_write f off bs), ?_⟩
  intro p k' hmem'
  rcases place_apart hmem hmem' with heq | hap
  · obtain ⟨rfl, rfl⟩ := Prod.mk.inj heq
    exact hsd
  have hrm := k.size_le_room
  have hrm' := k'.size_le_room
  have hpos := k.room_pos
  have hpos' := k'.room_pos
  have hne : p ≠ t := by omega
  apply Stored.of_sameAt _ (hsa p hne)
  exact (h.stored p k' hmem').write_apart (h.le_size hmem') (by omega)

theorem Represents.concat (h : Represents f L ks) (hagr : File.AgreeBelow (arenaEnd ks) f g)
    (hsa : ∀ p, p < arenaEnd ks → Links.SameAt L L' p)
    (hrc : arenaEnd ks + k.room ≤ g.size) (hsd : Stored g L' (arenaEnd ks) k) :
    Represents g L' (ks ++ [k]) := by
  refine ⟨by rw [arenaEnd_concat]; exact hrc, ?_⟩
  intro p k' hmem
  rcases mem_objects_concat.mp hmem with hold | ⟨rfl, rfl⟩
  · exact ((h.of_agreeBelow hagr).stored p k' hold).of_sameAt (hsa p (lt_arenaEnd hold))
  · exact hsd

def Kind.Hashed : Kind → Prop
  | .field _ => True
  | .data _ => True
  | _ => False

section

private theorem holds_write_word
    (h : f.Holds p (l ++ (word n ++ r))) {off : Nat} (hoff : off = p + l.length) (q : Nat) :
    (f.write off (word q)).Holds p (l ++ (word q ++ r)) := by
  rw [hoff]
  exact h.write_middle (by rw [length_word, length_word])

theorem Represents.setNextHash (h : Represents f L ks) (hmem : (t, k) ∈ objects ks)
    (hhs : k.Hashed) : Represents (f.write (t + 24) (word q)) (L.setNextHash t q) ks := by
  have hsd := h.stored t k hmem
  apply h.write_object hmem (Nat.le_add_right t 24)
  · cases k <;> simp_all [Kind.Hashed, Kind.size, fieldBase, dataBase]
    all_goals omega
  · exact fun p hp => Links.sameAt_setNextHash hp
  cases k with
  | field name =>
    have hsl : ∀ L : Links, (L.field t name).encode ++ name =
        ((ObjectType.field.header (fieldBase + name.length)).encode ++
          word (journalHash64 name)) ++
          (word (L.nextHash t) ++ (word (L.headData t) ++ name)) := by
      intro L
      simp [FieldObject.encode, Links.field]
    rw [Stored, hsl] at hsd ⊢
    simp only [Links.setNextHash, update_self]
    exact holds_write_word hsd (by simp [length_encode_header]) q
  | data payload =>
    have hsl : ∀ L : Links, (L.data t payload).encode ++ payload =
        ((ObjectType.data.header (dataBase + payload.length)).encode ++
          word (journalHash64 payload)) ++ (word (L.nextHash t) ++ (word (L.nextField t) ++
            (word (L.entryOffset t) ++ (word (L.entryArray t) ++
              (word (L.nEntries t) ++ payload))))) := by
      intro L
      simp [DataObject.encode, Links.data]
    rw [Stored, hsl] at hsd ⊢
    simp only [Links.setNextHash, update_self]
    exact holds_write_word hsd (by simp [length_encode_header]) q
  | table | entry | array => exact absurd hhs id

theorem Represents.setHeadData (h : Represents f L ks) (hmem : (t, .field u) ∈ objects ks) :
    Represents (f.write (t + 32) (word q)) (L.setHeadData t q) ks := by
  have hsd := h.stored t _ hmem
  apply h.write_object hmem (Nat.le_add_right t 32)
  · rw [length_word]
    simp only [Kind.size, fieldBase]
    omega
  · exact fun p hp => Links.sameAt_setHeadData hp
  have hsl : ∀ L : Links, (L.field t u).encode ++ u =
      ((ObjectType.field.header (fieldBase + u.length)).encode ++
        word (journalHash64 u) ++ word (L.nextHash t)) ++ (word (L.headData t) ++ u) := by
    intro L
    simp [FieldObject.encode, Links.field]
  rw [Stored, hsl] at hsd ⊢
  simp only [Links.setHeadData, update_self]
  exact holds_write_word hsd (by simp [length_encode_header]) q

theorem Represents.setNextArray (h : Represents f L ks) (hmem : (t, .array o a) ∈ objects ks) :
    Represents (f.write (t + 16) (word q)) (L.setNextArray t q) ks := by
  have hsd := h.stored t _ hmem
  apply h.write_object hmem (Nat.le_add_right t 16)
  · rw [length_word]
    simp only [Kind.size, arrayBase]
    omega
  · exact fun p hp => Links.sameAt_setNextArray hp
  have hsl : ∀ L : Links, (L.array t).encode ++ word a =
      (ObjectType.entryArray.header (arrayBase + 8)).encode ++
        (word (L.nextArray t) ++ word a) := by
    intro L
    simp [EntryArrayObject.encode, Links.array]
  rw [Stored, hsl] at hsd ⊢
  simp only [Links.setNextArray, update_self]
  exact holds_write_word hsd (by rw [length_encode_header]) q

theorem Represents.setEntries {pay : List UInt8} (h : Represents f L ks)
    (hmem : (t, .data pay) ∈ objects ks) (e a n : Nat) :
    Represents (f.write t ((L.setEntries t e a n).data t pay).encode)
      (L.setEntries t e a n) ks := by
  have hsd := h.stored t _ hmem
  apply h.write_object hmem (Nat.le_refl t)
  · rw [Links.length_data]
    simp only [Kind.size]
    omega
  · exact fun p hp => Links.sameAt_setEntries hp
  have hwh : f.Holds t ([] ++ ((L.data t pay).encode ++ pay)) := hsd
  have hln : ((L.setEntries t e a n).data t pay).encode.length =
      (L.data t pay).encode.length := by
    rw [Links.length_data, Links.length_data]
  exact hwh.write_middle hln

theorem Represents.setBucket {data : Bool} (h : Represents f L ks)
    (hmem : (t, .table data) ∈ objects ks)
    (hone : ∀ p, (p, .table data) ∈ objects ks → p = t) (hb : b < buckets data)
    (a : HashItem) : Represents (f.write (t + 16 + b * 16) a.encode) (L.setBucket data b a) ks := by
  have hln := a.length_encode
  refine ⟨Nat.le_trans h.reaches (File.le_size_write _ _ _), ?_⟩
  intro p k hmem'
  have hsd := h.stored p k hmem'
  have hsz : t + (Kind.table data).size ≤ f.size := h.le_size hmem
  simp only [Kind.size] at hsz
  rcases place_apart hmem hmem' with heq | hap
  · -- the other buckets of the table keep their bytes
    obtain ⟨rfl, rfl⟩ := Prod.mk.inj heq
    refine ⟨hsd.1.write_apart (.inr ?_), ?_⟩
    · rw [length_encode_header]
      omega
    intro c hc
    by_cases hcb : c = b
    · subst hcb
      simp only [Links.setBucket, and_self, if_true]
      exact File.holds_write f _ (ne_nil_of_length_eq_add_one hln)
    simp only [Links.setBucket, hcb, and_false, if_false]
    apply (hsd.2 c hc).write_apart
    rw [hln, HashItem.length_encode]
    omega
  · have hrm := (Kind.table data).size_le_room
    have hrm' := k.size_le_room
    simp only [Kind.size] at hrm
    have hold : Stored (f.write (t + 16 + b * 16) a.encode) L p k :=
      hsd.write_apart (h.le_size hmem') (by omega)
    cases k with
    | table d' =>
      have hne : d' ≠ data := by
        rintro rfl
        rw [hone p hmem'] at hap
        omega
      refine ⟨hold.1, ?_⟩
      intro c hc
      simp only [Links.setBucket, hne, false_and, if_false]
      exact hold.2 c hc
    | field | data | entry | array => exact hold

end

end Rustd.JournalFile
