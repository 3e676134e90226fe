import Rustd.JournalFile.Consistent

/-!
# Appending fields and data

The first part of appending an entry: the data objects of its fields are found or appended, each
with its field. The file stays consistent, and the entries that data list do not change.
-/

namespace Rustd.JournalFile

open Base Program List

def TooLarge (n : Nat) (e : Errno) : Prop :=
  (e = .fbig ∨ e = .nomem ∨ e = .toobig) ∧ uint32Max < n

variable {field : Field} {e : Errno} {n m : Nat} {bytes : List UInt8}

theorem TooLarge.mono (h : TooLarge m e) (hle : m ≤ n) : TooLarge n e :=
  ⟨h.1, Nat.lt_of_lt_of_le h.2 hle⟩

variable {h h' : JournalFileHeader} {L L' : Links} {ks ks' : List Kind} {f f' : File}
  {s sup : Bool} {E : Errno → Prop} {data : Bool} {payload pay name : List UInt8}

section

private theorem ensures_findObject (hc : Consistent h L ks) (hrep : Represents f L ks)
    (hsz : pay.length ≤ int64Max) :
    (findObject h data (hashedType data) (hashedBase data) pay (journalHash64 pay)).Ensures
      sup f E (fun fo f' => f' = f ∧
        match fo with
        | some p => HasPayload ks data pay p
        | none => pay ∉ payloads data ks) := by
  have hb : journalHash64 pay % buckets data < buckets data := Nat.mod_lt _ (buckets_pos data)
  have hlk := hc.hash.linked data (journalHash64 pay % buckets data) hb
  have hmem : ∀ p ∈ select (inBucket data (journalHash64 pay % buckets data)) ks,
      ∃ p', HasPayload ks data p' p := by
    intro p hp
    obtain ⟨k, hk, hin⟩ := mem_select.mp hp
    cases hhs : k.hashed data with
    | none =>
      rw [inBucket_of_none hhs] at hin
      cases hin
    | some p' => exact ⟨p', k, hk, hhs⟩
  have hln : (select (inBucket data (journalHash64 pay % buckets data)) ks).length <
      2 ^ 64 := by
    have hle := length_select_le (inBucket data (journalHash64 pay % buckets data)) ks
    have hbn := hc.bound
    omega
  unfold findObject
  apply ensures_bind
  apply ensures_hashItemFor hc.header.tables hc.tables hc.small hrep
  refine (ensures_findFrom hrep hc.small hc.bound hsz hlk (pairwise_select _ _) hmem hln).mono ?_
  rintro fo f' ⟨rfl, hfn⟩
  refine ⟨rfl, ?_⟩
  cases fo with
  | some p => exact hfn
  | none =>
    intro hmem
    obtain ⟨p, k, hk, hhs⟩ := hasPayload_of_mem hmem
    apply hfn p _ ⟨k, hk, hhs⟩
    refine mem_select.mpr ⟨k, hk, ?_⟩
    rw [inBucket_of_hashed hhs]
    exact beq_self_eq_true _

private theorem ensures_linkHashObject (ht : TablesAt h) (hta : HasTables ks) (hL : L.Small)
    (hrep : Represents f L ks) (hash p : Nat)
    (htl : (L.bucket data (hash % buckets data)).tailHashOffset ≠ 0 →
      ∃ k, ((L.bucket data (hash % buckets data)).tailHashOffset, k) ∈ objects ks ∧ k.Hashed) :
    (linkHashObject h data hash p).Ensures sup f E
      (fun _ f' => Represents f' (L.linkHash data (hash % buckets data) p) ks) := by
  have hb : hash % buckets data < buckets data := Nat.mod_lt _ (buckets_pos data)
  have hmem := hta.mem_objects data
  unfold linkHashObject
  apply ensures_bind
  apply ensures_hashItemFor ht hta hL hrep
  dsimp only
  unfold Links.linkHash
  split
  · apply ensures_writeAt
    exact hrep.setBucket hmem (fun q hq => hta.unique hq) hb _
  rename_i hne
  obtain ⟨k, hk, hhs⟩ := htl hne
  apply ensures_bind
  apply ensures_writeAt
  apply ensures_writeAt
  exact (hrep.setNextHash hk hhs).setBucket hmem (fun q hq => hta.unique hq) hb _

theorem HasPayload.mem_objects (h : HasPayload ks data payload p) :
    (p, if data then .data payload else .field payload) ∈ objects ks := by
  obtain ⟨k, hk, hpd⟩ := h
  have hkn : k = if data then .data payload else .field payload := by
    cases k <;> cases data <;> simp_all [Kind.hashed]
  exact hkn ▸ hk

private theorem Consistent.tail_mem (hc : Consistent h L ks) (hb : b < buckets data)
    (hne : (L.bucket data b).tailHashOffset ≠ 0) :
    ∃ k, ((L.bucket data b).tailHashOffset, k) ∈ objects ks ∧ k.Hashed := by
  have htl := hc.hash.tail data b hb
  have hmem : (L.bucket data b).tailHashOffset ∈ select (inBucket data b) ks := by
    rw [htl] at hne ⊢
    exact Linked.getLastD_mem (fun hnil => hne (by rw [hnil]; rfl))
  obtain ⟨k, hk, hin⟩ := mem_select.mp hmem
  refine ⟨k, hk, ?_⟩
  cases k with
  | field | data => trivial
  | _ => cases hin

end

section

variable {P : Kind → Prop} {n : Nat}

/-- Objects were appended, and the file is consistent again. The arena grew by no more than the
given number of bytes. -/
structure Grown (P : Kind → Prop) (n : Nat) (h : JournalFileHeader) (ks : List Kind)
    (h' : JournalFileHeader) (L' : Links) (ks' : List Kind) (f' : File) : Prop where
  consistent : Consistent h' L' ks'
  represents : Represents f' L' ks'
  fixed : h'.fixed = h.fixed
  room : arenaEnd ks' ≤ arenaEnd ks + n
  added : ∃ new, ks' = ks ++ new ∧ ∀ k ∈ new, P k

theorem Grown.refl (hc : Consistent h L ks) (hrep : Represents f L ks) : Grown P n h ks h L ks f :=
  ⟨hc, hrep, rfl, Nat.le_add_right _ _, [], (append_nil ks).symm, fun _ hk => absurd hk not_mem_nil⟩

theorem Grown.trans {m : Nat}
    (hg : Grown P m h ks h' L' ks' f') (hg' : Grown P n h' ks' h'' L'' k'' f'') :
    Grown P (m + n) h ks h'' L'' k'' f'' := by
  have hrm := hg.room
  have hrm' := hg'.room
  obtain ⟨new, rfl, hnew⟩ := hg.added
  obtain ⟨n', rfl, hnew'⟩ := hg'.added
  refine ⟨hg'.consistent, hg'.represents, hg'.fixed.trans hg.fixed, by omega, new ++ n',
    append_assoc _ _ _, ?_⟩
  intro k hk
  rcases mem_append.mp hk with hk | hk
  · exact hnew k hk
  · exact hnew' k hk

theorem Grown.mono (hg : Grown P n h ks h' L' ks' f') (hPQ : ∀ k, P k → Q k) :
    Grown Q n h ks h' L' ks' f' := by
  obtain ⟨new, heq, hnew⟩ := hg.added
  exact ⟨hg.consistent, hg.represents, hg.fixed, hg.room, new, heq, fun k hk => hPQ k (hnew k hk)⟩

variable {k : Kind}

theorem Grown.single (hc : Consistent h' L' (ks ++ [k])) (hrep : Represents f' L' (ks ++ [k]))
    (hfx : h'.fixed = h.fixed) (hrm : k.room ≤ n) (hk : P k) :
    Grown P n h ks h' L' (ks ++ [k]) f' := by
  refine ⟨hc, hrep, hfx, ?_, [k], rfl, ?_⟩
  · rw [arenaEnd_concat]
    exact Nat.add_le_add_left hrm _
  intro k' hk'
  rw [mem_singleton.mp hk']
  exact hk

theorem Grown.mem_objects (hg : Grown P n h ks h' L' ks' f')
    (hmem : (p, k) ∈ objects ks) : (p, k) ∈ objects ks' := by
  obtain ⟨new, rfl, -⟩ := hg.added
  rw [objects, place_append]
  exact mem_append_left _ hmem

private theorem Grown.payloads_eq (hg : Grown P n h ks h' L' ks' f')
    (hP : ∀ k, P k → k.hashed data = none) : payloads data ks' = payloads data ks := by
  obtain ⟨new, rfl, hnew⟩ := hg.added
  have hnil : payloads data new = [] := filterMap_eq_nil_iff.mpr (fun k hk => hP k (hnew k hk))
  rw [payloads, filterMap_append]
  show payloads data ks ++ payloads data new = payloads data ks
  rw [hnil, append_nil]

theorem listed_concat (hent : L'.entryOffset = L.entryOffset) (hk : isArray k = false) :
    listed L' (ks ++ [k]) = listed L ks := by
  funext p
  rw [listed, listed, hent, arrayItems_concat_of_not hk]

end

section

def JournalFileHeader.addField (h : JournalFileHeader) (ks : List Kind) (name : List UInt8) :
    JournalFileHeader :=
  { h.addObject ks (.field name) with nFields := (h.addObject ks (.field name)).nFields + 1 }

theorem JournalFileHeader.fixed_addObject (h : JournalFileHeader) (ks : List Kind) (k : Kind) :
    (h.addObject ks k).fixed = h.fixed := by
  simp only [fixed, addObject]

private theorem JournalFileHeader.fixed_addField (h : JournalFileHeader) (ks : List Kind)
    (name : List UInt8) : (h.addField ks name).fixed = h.fixed := by
  simp only [fixed, addField, addObject]

private theorem Consistent.concat_field (hc : Consistent h L ks) (hnew : name ∉ payloads false ks)
    (hbn : arenaEnd ks + (Kind.field name).room < 2 ^ 63) :
    Consistent (h.addField ks name)
      (L.linkHash false (journalHash64 name % buckets false) (arenaEnd ks))
      (ks ++ [.field name]) := by
  obtain ⟨hfl, hetr⟩ := L.linkHash_same false (journalHash64 name % buckets false) (arenaEnd ks)
  have hoff : arenaEnd ks < 2 ^ 64 := Nat.lt_trans hc.bound (by decide)
  constructor
  · exact hc.tables.concat nofun
  · apply hc.header.concat (.field name)
    all_goals simp only [JournalFileHeader.fixed, JournalFileHeader.addField,
      JournalFileHeader.addObject, Kind.hashed, isArray]
    all_goals rfl
  · rw [arenaEnd_concat]
    exact hbn
  · exact hc.small.linkHash hoff
  · exact hc.hash.link rfl hnew
  · refine (hc.fields.concat_other (k := .field name) rfl ?_).of_same hfl
    exact fun _ h => Option.some.inj h ▸ hnew
  · exact (hc.entries.concat_other rfl).of_same hetr
  apply (hc.all.concat_other rfl).of_eq hetr.nextArray
  · simp only [JournalFileHeader.addField, JournalFileHeader.addObject]
  · simp only [JournalFileHeader.addField, JournalFileHeader.addObject]

def JournalFileHeader.addData (h : JournalFileHeader) (ks : List Kind) (payload : List UInt8) :
    JournalFileHeader :=
  { h.addObject ks (.data payload) with nData := (h.addObject ks (.data payload)).nData + 1 }

private theorem JournalFileHeader.fixed_addData (h : JournalFileHeader) (ks : List Kind)
    (pay : List UInt8) : (h.addData ks pay).fixed = h.fixed := by
  simp only [fixed, addData, addObject]

/-- The links after data were appended, at the offset `p`, to the list of the field at `q`. -/
def Links.linkData (L : Links) (b p q : Nat) : Links :=
  ((L.setNextField p (L.headData q)).linkHash true b p).setHeadData q p

private theorem Links.sameEntries_linkData (L : Links) (b p q : Nat) :
    Links.SameEntries L (L.linkData b p q) := by
  obtain ⟨-, hetr⟩ := (L.setNextField p (L.headData q)).linkHash_same true b p
  exact ⟨hetr.entryOffset, hetr.entryArray, hetr.nEntries, hetr.nextArray⟩

theorem Consistent.concat_data (hc : Consistent h L ks) (hnew : pay ∉ payloads true ks)
    (hq : (q, .field (fieldName pay)) ∈ objects ks)
    (hbn : arenaEnd ks + (Kind.data pay).room < 2 ^ 63) :
    Consistent (h.addData ks pay)
      (L.linkData (journalHash64 pay % buckets true) (arenaEnd ks) q)
      (ks ++ [.data pay]) := by
  have hoff : arenaEnd ks < 2 ^ 64 := Nat.lt_trans hc.bound (by decide)
  obtain ⟨hfl, -⟩ := (L.setNextField (arenaEnd ks) (L.headData q)).linkHash_same true
    (journalHash64 pay % buckets true) (arenaEnd ks)
  have hetr := L.sameEntries_linkData (journalHash64 pay % buckets true) (arenaEnd ks) q
  constructor
  · exact hc.tables.concat nofun
  · apply hc.header.concat (.data pay)
    all_goals simp only [JournalFileHeader.fixed, JournalFileHeader.addData,
      JournalFileHeader.addObject, Kind.hashed, isArray]
    all_goals rfl
  · rw [arenaEnd_concat]
    exact hbn
  · exact ((hc.small.setNextField (hc.small.headData q)).linkHash hoff).setHeadData hoff
  · -- the links of fields do not matter for the hash tables
    have hha : HashChains (L.setNextField (arenaEnd ks) (L.headData q)) ks :=
      hc.hash.of_same ⟨rfl, rfl⟩
    exact (hha.link (k := .data pay) rfl hnew).of_same ⟨rfl, rfl⟩
  · exact (hc.fields.concat_data (hc.hash.unique false) hq).of_same
      (hfl.setHeadData q (arenaEnd ks))
  · exact (hc.entries.concat_other rfl).of_same hetr
  apply (hc.all.concat_other rfl).of_eq hetr.nextArray
  · simp only [JournalFileHeader.addData, JournalFileHeader.addObject]
  · simp only [JournalFileHeader.addData, JournalFileHeader.addObject]

end

theorem Represents.concat_write {L' : Links} (hrep : Represents f L ks)
    (hagr : File.AgreeBelow (arenaEnd ks) f g)
    (hrc : arenaEnd ks + k.room ≤ g.size) (hsa : ∀ p, p < arenaEnd ks → Links.SameAt L L' p)
    (hln : bytes.length = b) (hne : bytes ≠ []) (hne' : bs' ≠ [])
    (hsd : ∀ g : File, g.Holds (arenaEnd ks) (bytes ++ bs') → Stored g L' (arenaEnd ks) k) :
    Represents ((g.write (arenaEnd ks) bytes).write (arenaEnd ks + b) bs') L' (ks ++ [k]) := by
  have hhl : ((g.write (arenaEnd ks) bytes).write (arenaEnd ks + b) bs').Holds
      (arenaEnd ks) (bytes ++ bs') := by
    rw [File.holds_append, hln]
    exact ⟨(File.holds_write g _ hne).write_apart (.inr (by omega)), File.holds_write _ _ hne'⟩
  apply hrep.concat _ hsa _ (hsd _ hhl)
  · exact (hagr.trans (File.agreeBelow_write g bytes (Nat.le_refl _))).trans
      (File.agreeBelow_write _ bs' (Nat.le_add_right _ _))
  · exact Nat.le_trans hrc (Nat.le_trans (File.le_size_write g _ _) (File.le_size_write _ _ _))

private theorem length_le_of_valid (hvl : journalFieldValid name = true) : name.length ≤ 64 := by
  simp only [journalFieldValid, Bool.and_eq_true, decide_eq_true_eq] at hvl
  exact hvl.1.1.2

private theorem ne_nil_of_valid (hvl : journalFieldValid name = true) : name ≠ [] := by
  simp only [journalFieldValid, Bool.and_eq_true, bne_iff_ne] at hvl
  exact hvl.1.1.1

theorem ne_nil_of_length (h : bytes.length = n) (hn : 0 < n) : bytes ≠ [] := by
  rintro rfl
  rw [← h] at hn
  exact Nat.lt_irrefl 0 hn

private theorem ensures_newHashed {β : Type} (data : Bool) (k : Kind)
    {l : JournalFileHeader × Nat → Program Errno β} {Q : β → File → Prop}
    (hc : Consistent h L ks) (hrep : Represents f L ks) (hL : L'.Small)
    (hsa : ∀ p, p < arenaEnd ks → Links.SameAt L L' p) (htb : ∀ data, k ≠ .table data)
    (hsz : k.size ≤ 2 ^ 63 + 2 ^ 32) (hpd : pay ≠ []) (hln : bytes.length = hashedBase data)
    (hsd : ∀ g : File, g.Holds (arenaEnd ks) (bytes ++ pay) → Stored g L' (arenaEnd ks) k)
    (hE : uint32Max < arenaEnd ks + k.room → E .fbig) (hrest : ∀ f', arenaEnd ks + k.room < 2 ^ 63 →
      Represents f' (L'.linkHash data (journalHash64 pay % buckets data) (arenaEnd ks))
        (ks ++ [k]) →
      (l (h.addObject ks k, arenaEnd ks)).Ensures sup f' E Q) : (do
      let r ← appendZeroObject h k.type k.size
      writeAt r.2 bytes
      writeAt (r.2 + hashedBase data) pay
      linkHashObject r.1 data (journalHash64 pay) r.2
      l r).Ensures sup f E Q := by
  have hbs : 0 < hashedBase data := by
    cases data <;> decide
  apply ensures_bind
  apply ensures_appendZeroObject hc.header hc.bound hrep k hsz hE
  intro f₁ hagr hrc hbn
  apply ensures_bind
  apply ensures_writeAt
  apply ensures_bind
  apply ensures_writeAt
  have hrep₁ := hrep.concat_write hagr hrc hsa hln (ne_nil_of_length hln hbs) hpd hsd
  have hta : HasTables (ks ++ [k]) := hc.tables.concat htb
  apply ensures_bind
  refine (ensures_linkHashObject (hc.header.tables.of_fixed (h.fixed_addObject ks k)) hta hL
    hrep₁ _ _ ?_).mono ?_
  · intro hne
    rw [(hsa 0 (arenaEnd_pos ks)).bucket] at hne ⊢
    obtain ⟨k', hk', hhs⟩ := hc.tail_mem (Nat.mod_lt _ (buckets_pos data)) hne
    exact ⟨k', mem_objects_concat.mpr (.inl hk'), hhs⟩
  · intro _ f₂ h₂
    exact hrest f₂ hbn h₂

private theorem Consistent.blank_field (hc : Consistent h L ks) :
    ({ object := ObjectType.field.header (fieldBase + name.length)
       hash := journalHash64 name } : FieldObject) = L.field (arenaEnd ks) name := by
  rw [Links.field, hc.hash.ended _ (Nat.le_refl _), hc.fields.blank _ (Nat.le_refl _)]

private theorem ensures_appendFieldObject (hc : Consistent h L ks) (hrep : Represents f L ks)
    (hvl : journalFieldValid name = true) :
    (appendFieldObject h name).Ensures sup f (TooLarge (arenaEnd ks + (Kind.field name).room))
      (fun r f' => ∃ L' ks',
        Grown (· = .field name) (Kind.field name).room h ks r.1 L' ks' f' ∧
          listed L' ks' = listed L ks ∧ (r.2, .field name) ∈ objects ks') := by
  have hln := length_le_of_valid hvl
  have hsz : name.length ≤ int64Max := Nat.le_trans hln (by decide)
  unfold appendFieldObject
  rw [if_pos hvl]
  dsimp only
  apply ensures_bind
  refine (ensures_findObject hc hrep hsz).mono ?_
  rintro found f₁ ⟨rfl, hfn⟩
  cases found with
  | some p => exact ⟨L, ks, Grown.refl hc hrep, rfl, hfn.mem_objects⟩
  | none =>
    dsimp only
    rw [hc.blank_field]
    apply ensures_newHashed false (.field name) hc hrep hc.small
      (fun p _ => Links.SameAt.refl L p) nofun _ (ne_nil_of_valid hvl)
      (L.length_field (arenaEnd ks) name) (fun g hg => hg)
    · exact fun hfu => ⟨.inl rfl, hfu⟩
    · intro f₂ hbn h₂
      refine ⟨_, _, Grown.single (hc.concat_field hfn hbn) h₂ ?_ (Nat.le_refl _) rfl, ?_, ?_⟩
      · exact h.fixed_addField ks name
      · exact listed_concat (L.linkHash_same _ _ _).2.entryOffset rfl
      · exact mem_objects_concat.mpr (.inr ⟨rfl, rfl⟩)
    · show fieldBase + name.length ≤ 2 ^ 63 + 2 ^ 32
      unfold fieldBase
      omega

private theorem Field.payload_ne_nil (field : Field) : field.payload ≠ [] :=
  append_ne_nil_of_right_ne_nil _ (cons_ne_nil _ _)

private theorem Consistent.blank_data (hc : Consistent h L ks) (ne : Nat) :
    ({ object := ObjectType.data.header (dataBase + payload.length)
       hash := journalHash64 payload
       nextFieldOffset := ne } : DataObject) =
      (L.setNextField (arenaEnd ks) ne).data (arenaEnd ks) payload := by
  obtain ⟨hent, har, hcn, -⟩ := hc.entries.blank (arenaEnd ks) (Nat.le_refl _)
  have hha := hc.hash.ended _ (Nat.le_refl _)
  rw [Links.data]
  simp only [Links.setNextField, Function.update_self, hent, har, hcn, hha]

def OfField (field : Field) (k : Kind) : Prop := k = .field field.key ∨ k = .data field.payload

def fieldRoom (field : Field) : Nat :=
  (Kind.field field.key).room + (Kind.data field.payload).room

def RefersTo (ks : List Kind) (field : Field) (ref : DataReference) : Prop :=
  (ref.offset, .data field.payload) ∈ objects ks ∧ ref.hash = journalHash64 field.payload

private theorem ensures_newData (hc : Consistent h L ks) (hrep : Represents f L ks)
    (hvl : journalFieldValid field.key = true) (hsz : field.payload.length ≤ int64Max)
    (hnew : field.payload ∉ payloads true ks) (hq : (q, .field field.key) ∈ objects ks) : (do
      let fieldBytes ← .readAt q fieldBase .io
      let fieldObject := FieldObject.decode fieldBytes
      let (header, offset) ← appendZeroObject h .data (dataBase + field.payload.length)
      .writeAt offset
        ({ object := ObjectType.data.header (dataBase + field.payload.length)
           hash := journalHash64 field.payload
           nextFieldOffset := fieldObject.headDataOffset } : DataObject).encode
      .writeAt (offset + dataBase) field.payload
      linkHashObject header true (journalHash64 field.payload) offset
      .writeAt (q + 32) (word offset)
      pure ({ header with nData := header.nData + 1 },
        { offset, hash := journalHash64 field.payload }) :
      Program Errno (JournalFileHeader × DataReference)).Ensures sup f
      (TooLarge (arenaEnd ks + (Kind.data field.payload).room)) (fun r f' => ∃ L' ks',
        Grown (· = .data field.payload) (Kind.data field.payload).room h ks r.1 L' ks' f' ∧
          listed L' ks' = listed L ks ∧ RefersTo ks' field r.2) := by
  have hkey := length_le_of_valid hvl
  have hbt := (hrep.stored q _ hq).left.read?_of_length (L.length_field q field.key)
  have hde : FieldObject.decode (L.field q field.key).encode = L.field q field.key :=
    decode_field hc.small (by unfold fieldBase; omega)
  apply ensures_bind
  apply ensures_readAt hbt
  dsimp only
  rw [hde, hc.blank_data]
  apply ensures_newHashed true (.data field.payload) hc hrep
    (hc.small.setNextField (hc.small.headData q))
    (fun p hp => Links.sameAt_setNextField (Nat.ne_of_lt hp)) nofun _ field.payload_ne_nil
    (Links.length_data _ _ _) (fun g hg => hg)
  · exact fun hfu => ⟨.inl rfl, hfu⟩
  · intro f₁ hbn h₁
    apply ensures_bind
    apply ensures_writeAt
    have hrep₂ := h₁.setHeadData (q := arenaEnd ks) (mem_objects_concat.mpr (.inl hq))
    have hq' : (q, Kind.field (fieldName field.payload)) ∈ objects ks := by
      rw [fieldName_payload hvl]
      exact hq
    refine ⟨_, _, Grown.single (hc.concat_data hnew hq' hbn) hrep₂ ?_ (Nat.le_refl _) rfl,
      ?_, ?_, rfl⟩
    · exact h.fixed_addData ks field.payload
    · exact listed_concat (L.sameEntries_linkData _ _ _).entryOffset rfl
    · exact mem_objects_concat.mpr (.inr ⟨rfl, rfl⟩)
  · show dataBase + field.payload.length ≤ 2 ^ 63 + 2 ^ 32
    unfold int64Max at hsz
    unfold dataBase
    omega

def Refused (n : Nat) (fields : List Field) (e : Errno) : Prop :=
  TooLarge n e ∨ e = .badmsg ∧ ∃ field ∈ fields, journalFieldValid field.key = false

theorem Refused.mono (h : Refused m fs e) (hle : m ≤ n)
    (hsub : ∀ field ∈ fs, field ∈ fs') : Refused n fs' e := by
  rcases h with hla | ⟨he, field, hmem, hi⟩
  · exact .inl (hla.mono hle)
  · exact .inr ⟨he, field, hsub field hmem, hi⟩

private theorem ensures_appendDataObject (hc : Consistent h L ks) (hrep : Represents f L ks)
    (field : Field) :
    (appendDataObject h field).Ensures sup f (Refused (arenaEnd ks + fieldRoom field) [field])
      (fun r f' => ∃ L' ks', Grown (OfField field) (fieldRoom field) h ks r.1 L' ks' f' ∧
        listed L' ks' = listed L ks ∧ RefersTo ks' field r.2 ∧
          journalFieldValid field.key = true) := by
  have hrm : field.payload.length ≤ fieldRoom field := by
    have hsz := (Kind.data field.payload).size_le_room
    rw [Kind.size] at hsz
    unfold fieldRoom
    omega
  have hpd : field.payload.length = field.key.length + 1 + field.value.length := by
    rw [Field.payload, length_append, length_cons]
    omega
  unfold appendDataObject
  split
  swap
  · next hin =>
    exact .inr ⟨rfl, field, mem_singleton_self field, Bool.eq_false_iff.mpr hin⟩
  rename_i hvl
  split
  · next hbig =>
    refine .inl ⟨.inr (.inr rfl), ?_⟩
    unfold uint64Max at hbig
    unfold uint32Max
    omega
  by_cases hsz : field.payload.length ≤ int64Max
  swap
  · rw [memory, if_pos (Nat.lt_of_not_le hsz)]
    refine .inl ⟨.inr (.inl rfl), ?_⟩
    unfold int64Max at hsz
    unfold uint32Max
    omega
  apply ensures_bind
  apply ensures_memory hsz
  dsimp only
  apply ensures_bind
  refine (ensures_findObject hc hrep hsz).mono ?_
  rintro found f₁ ⟨rfl, hfn⟩
  cases found with
  | some p => exact ⟨L, ks, Grown.refl hc hrep, rfl, ⟨hfn.mem_objects, rfl⟩, hvl⟩
  | none =>
    apply ensures_bind
    refine ((ensures_appendFieldObject hc hrep hvl).weaken ?_).mono ?_
    · exact fun e he => .inl (he.mono (by unfold fieldRoom; omega))
    rintro ⟨h₁, q⟩ f₂ ⟨L₁, ks₁, hg, hlst, hq⟩
    have hgr := hg.room
    have hnew : field.payload ∉ payloads true ks₁ := by
      rw [hg.payloads_eq (fun k hk => by rw [hk]; rfl)]
      exact hfn
    refine ((ensures_newData hg.consistent hg.represents hvl hsz hnew hq).weaken ?_).mono ?_
    · exact fun e he => .inl (he.mono (by unfold fieldRoom; omega))
    rintro r f₃ ⟨L₂, ks₂, hg', hlst', href⟩
    exact ⟨L₂, ks₂, (hg.mono (fun k hk => .inl hk)).trans (hg'.mono (fun k hk => .inr hk)),
      hlst'.trans hlst, href, hvl⟩

def fieldsRoom (fields : List Field) : Nat := (fields.map fieldRoom).sum

theorem RefersTo.grown {ref : DataReference} (href : RefersTo ks field ref)
    (hg : Grown P n h ks h' L' ks' f') : RefersTo ks' field ref :=
  ⟨hg.mem_objects href.1, href.2⟩

theorem ensures_appendDataObjects (hc : Consistent h L ks) (hrep : Represents f L ks)
    (fields : List Field) : (appendDataObjects h fields).Ensures s f
      (Refused (arenaEnd ks + fieldsRoom fields) fields) (fun r f' => ∃ L' ks',
        Grown (fun k => ∃ field ∈ fields, OfField field k) (fieldsRoom fields) h ks r.1 L' ks' f' ∧
          listed L' ks' = listed L ks ∧ List.Forall₂ (RefersTo ks') fields r.2 ∧
            ∀ field ∈ fields, journalFieldValid field.key = true) := by
  induction fields generalizing h L ks f with
  | nil =>
    exact ⟨L, ks, Grown.refl hc hrep, rfl, List.Forall₂.nil, fun _ hmem => absurd hmem not_mem_nil⟩
  | cons field fields ih =>
    have hco : fieldsRoom (field :: fields) = fieldRoom field + fieldsRoom fields := by
      rw [fieldsRoom, map_cons, sum_cons]
      rfl
    unfold appendDataObjects
    apply ensures_bind
    refine ((ensures_appendDataObject hc hrep field).weaken ?_).mono ?_
    · exact fun e he => he.mono (by omega) (fun _ hmem => mem_singleton.mp hmem ▸ mem_cons_self)
    rintro ⟨h₁, ref⟩ f₁ ⟨L₁, ks₁, hg, hlst, href, hvl⟩
    have hgr := hg.room
    apply ensures_bind
    refine ((ih hg.consistent hg.represents).weaken ?_).mono ?_
    · exact fun e he => he.mono (by omega) (fun _ hmem => mem_cons_of_mem field hmem)
    rintro ⟨h₂, rf⟩ f₂ ⟨L₂, ks₂, hg', hlst', hrfs, hvl'⟩
    refine ⟨L₂, ks₂, ?_, hlst'.trans hlst, List.Forall₂.cons (href.grown hg') hrfs, ?_⟩
    · rw [hco]
      exact (hg.mono (fun k hk => ⟨field, mem_cons_self, hk⟩)).trans
        (hg'.mono (fun k ⟨field', hmem, hk⟩ => ⟨field', mem_cons_of_mem field hmem, hk⟩))
    · exact forall_mem_cons.mpr ⟨hvl, hvl'⟩

end Rustd.JournalFile
