import Rustd.JournalFile.Lookup

/-!
# The chains of a journal file

The invariants of the hash tables and of the lists of the data of a field: the links lead through
exactly the objects that belong there, in order. Each depends on some of the links only, and says
what adding an object and changing its links does to it.
-/

namespace Rustd.JournalFile

open Base List Option Function

section

def payloads (data : Bool) (ks : List Kind) : List (List UInt8) := ks.filterMap (Kind.hashed data)

def inBucket (data : Bool) (b : Nat) (k : Kind) : Bool :=
  match k.hashed data with
  | some payload => journalHash64 payload % buckets data == b
  | none => false

def dataOf (name : List UInt8) : Kind → Bool
  | .data payload => fieldName payload == name
  | _ => false

def arrayOf (owner : Nat) : Kind → Bool
  | .array owner' _ => owner' == owner
  | _ => false

def isArray : Kind → Bool
  | .array _ _ => true
  | _ => false

def isEntry : Kind → Bool
  | .entry _ _ => true
  | _ => false

def arrayItems (owner : Nat) (ks : List Kind) : List Nat :=
  ks.filterMap fun
    | .array owner' item => if owner' = owner then some item else none
    | _ => none

def listed (L : Links) (ks : List Kind) (p : Nat) : List Nat :=
  if L.entryOffset p = 0 then [] else L.entryOffset p :: arrayItems p ks

theorem payloads_concat (data : Bool) (ks : List Kind) (k : Kind) :
    payloads data (ks ++ [k]) = payloads data ks ++ (k.hashed data).toList := by
  rw [payloads, payloads, filterMap_append]
  cases h : k.hashed data <;> simp [h]

theorem arrayItems_concat_array (o a o' : Nat) (ks : List Kind) :
    arrayItems o' (ks ++ [.array o a]) = arrayItems o' ks ++ if o = o' then [a] else [] := by
  rw [arrayItems, arrayItems, filterMap_append]
  by_cases h : o = o' <;> simp [h]

variable {data : Bool} {k : Kind} {ks : List Kind} {payload pay : List UInt8}

theorem arrayItems_concat_of_not (h : isArray k = false) (o : Nat) (ks : List Kind) :
    arrayItems o (ks ++ [k]) = arrayItems o ks := by
  rw [arrayItems, arrayItems, filterMap_append]
  cases k <;> simp_all [isArray]

theorem arrayOf_eq_false (h : isArray k = false) (o : Nat) : arrayOf o k = false := by
  cases k <;> simp_all [isArray, arrayOf]

theorem mem_payloads : payload ∈ payloads data ks ↔ ∃ k ∈ ks, k.hashed data = some payload := by
  rw [payloads, mem_filterMap]

theorem hasPayload_of_mem (h : pay ∈ payloads data ks) : ∃ p, HasPayload ks data pay p := by
  obtain ⟨k, hk, hpd⟩ := mem_payloads.mp h
  obtain ⟨p, hp⟩ := exists_mem_place journalHeaderSize hk
  exact ⟨p, k, hp, hpd⟩

end

section

variable {L : Links} {ks : List Kind} {k : Kind} {data : Bool} {payload pay : List UInt8} {b : Nat}

theorem inBucket_of_hashed (h : k.hashed data = some pay) (b : Nat) :
    inBucket data b k = (journalHash64 pay % buckets data == b) := by
  rw [inBucket, h]

theorem inBucket_of_none (h : k.hashed data = none) (b : Nat) : inBucket data b k = false := by
  rw [inBucket, h]

variable {p : Nat} {d' : Bool}

private theorem hashed_unique (h : k.hashed data = some pay) (h' : k.hashed d' = some p') :
    d' = data := by
  cases k <;> cases data <;> cases d' <;> simp_all [Kind.hashed]

theorem buckets_pos (data : Bool) : 0 < buckets data := by
  cases data <;> decide

/-- The hash tables: the objects of each bucket are linked from its head to its tail, and every
payload occurs once. -/
structure HashChains (L : Links) (ks : List Kind) : Prop where
  linked : ∀ data b, b < buckets data →
    Linked L.nextHash (L.bucket data b).headHashOffset (select (inBucket data b) ks)
  tail : ∀ data b, b < buckets data →
    (L.bucket data b).tailHashOffset = (select (inBucket data b) ks).getLastD 0
  unique : ∀ data, (payloads data ks).Nodup
  ended : ∀ p, arenaEnd ks ≤ p → L.nextHash p = 0

def Links.linkHash (L : Links) (data : Bool) (b p : Nat) : Links :=
  if (L.bucket data b).tailHashOffset = 0 then L.setBucket data b ⟨p, p⟩
  else (L.setNextHash (L.bucket data b).tailHashOffset p).setBucket data b
    { L.bucket data b with tailHashOffset := p }

structure Links.SameEntries (L L' : Links) : Prop where
  entryOffset : L'.entryOffset = L.entryOffset
  entryArray : L'.entryArray = L.entryArray
  nEntries : L'.nEntries = L.nEntries
  nextArray : L'.nextArray = L.nextArray

structure Links.SameFields (L L' : Links) : Prop where
  headData : L'.headData = L.headData
  nextField : L'.nextField = L.nextField

structure Links.SameHash (L L' : Links) : Prop where
  bucket : L'.bucket = L.bucket
  nextHash : L'.nextHash = L.nextHash

theorem Links.linkHash_same (L : Links) (data : Bool) (b p : Nat) :
    Links.SameFields L (L.linkHash data b p) ∧ Links.SameEntries L (L.linkHash data b p) := by
  unfold Links.linkHash
  split <;> exact ⟨⟨rfl, rfl⟩, ⟨rfl, rfl, rfl, rfl⟩⟩

theorem Links.SameFields.setHeadData {L L' : Links} (h : Links.SameFields L L') (t q : Nat) :
    Links.SameFields (L.setHeadData t q) (L'.setHeadData t q) := by
  refine ⟨?_, h.nextField⟩
  show update L'.headData t q = update L.headData t q
  rw [h.headData]

theorem HashChains.of_same (h : HashChains L ks) (hsa : Links.SameHash L L') :
    HashChains L' ks := by
  constructor
  · rw [hsa.bucket, hsa.nextHash]
    exact h.linked
  · rw [hsa.bucket]
    exact h.tail
  · exact h.unique
  · rw [hsa.nextHash]
    exact h.ended

theorem Links.Small.linkHash (h : L.Small) (hp : p < 2 ^ 64) : (L.linkHash data b p).Small := by
  unfold Links.linkHash
  split
  · exact h.setBucket hp hp
  · exact (h.setNextHash hp).setBucket (h.bucketHead data b) hp

theorem HashChains.concat_other (h : HashChains L ks) (hk : ∀ data, k.hashed data = none) :
    HashChains L (ks ++ [k]) where
  linked := by
    intro data b hb
    rw [select_concat_of_neg (inBucket_of_none (hk data) b)]
    exact h.linked data b hb
  tail := by
    intro data b hb
    rw [select_concat_of_neg (inBucket_of_none (hk data) b)]
    exact h.tail data b hb
  unique := by
    intro data
    rw [payloads_concat, hk data, toList_none, append_nil]
    exact h.unique data
  ended := by
    intro p hp
    rw [arenaEnd_concat] at hp
    exact h.ended p (by omega)

private theorem HashChains.linkHash_other (h : HashChains L ks) (hb : b < buckets data)
    (hb' : b' < buckets d') (hne : ¬(d' = data ∧ b' = b)) :
    (L.linkHash data b p).bucket d' b' = L.bucket d' b' ∧
      Linked (L.linkHash data b p).nextHash (L.bucket d' b').headHashOffset
        (select (inBucket d' b') ks) := by
  have hlk := h.linked d' b' hb'
  unfold Links.linkHash
  split
  · exact ⟨if_neg hne, hlk⟩
  rename_i htl
  refine ⟨if_neg hne, hlk.update ?_ p⟩
  -- the tail of the bucket is in no other bucket
  have hls : (L.bucket data b).tailHashOffset ∈ select (inBucket data b) ks := by
    rw [h.tail data b hb] at htl ⊢
    exact Linked.getLastD_mem (fun hnil => htl (by rw [hnil]; rfl))
  obtain ⟨k, hk, hin⟩ := mem_select.mp hls
  apply not_mem_select hk
  cases hhs : k.hashed data with
  | none => simp [inBucket, hhs] at hin
  | some pay =>
    cases hhs' : k.hashed d' with
    | none => exact inBucket_of_none hhs' b'
    | some p' =>
      obtain rfl := hashed_unique hhs hhs'
      rw [hhs] at hhs'
      obtain rfl := some.inj hhs'
      rw [inBucket_of_hashed hhs] at hin ⊢
      have hbck := beq_iff_eq.mp hin
      exact beq_eq_false_iff_ne.mpr (hne ⟨rfl, ·.symm.trans hbck⟩)

private theorem HashChains.linkHash_self (h : HashChains L ks) (hb : b < buckets data) :
    ((L.linkHash data b (arenaEnd ks)).bucket data b).tailHashOffset = arenaEnd ks ∧
      Linked (L.linkHash data b (arenaEnd ks)).nextHash
        ((L.linkHash data b (arenaEnd ks)).bucket data b).headHashOffset
        (select (inBucket data b) ks ++ [arenaEnd ks]) := by
  have hlk := h.linked data b hb
  have htl := h.tail data b hb
  have hend := h.ended (arenaEnd ks) (Nat.le_refl _)
  have hpos : arenaEnd ks ≠ 0 := Nat.ne_of_gt (arenaEnd_pos ks)
  unfold Links.linkHash
  split
  · next hzr =>
    have hnil : select (inBucket data b) ks = [] := by
      rw [htl] at hzr
      exact hlk.getLastD_eq_zero_iff.mp hzr
    have hbck : (L.setBucket data b ⟨arenaEnd ks, arenaEnd ks⟩).bucket data b =
        ⟨arenaEnd ks, arenaEnd ks⟩ := if_pos ⟨rfl, rfl⟩
    rw [hbck, hnil]
    exact ⟨rfl, rfl, hpos, hend⟩
  · next hne =>
    rw [htl] at hne ⊢
    have hnil : select (inBucket data b) ks ≠ [] := fun hnil => hne (by rw [hnil]; rfl)
    have hbck : ((L.setNextHash ((select (inBucket data b) ks).getLastD 0)
        (arenaEnd ks)).setBucket data b
          { L.bucket data b with tailHashOffset := arenaEnd ks }).bucket data b =
          { L.bucket data b with tailHashOffset := arenaEnd ks } := if_pos ⟨rfl, rfl⟩
    have hnp : (select (inBucket data b) ks ++ [arenaEnd ks]).Nodup := by
      rw [nodup_append]
      refine ⟨nodup_select _ _, pairwise_singleton _ _, ?_⟩
      intro p hp q hq
      rw [mem_singleton.mp hq]
      exact Nat.ne_of_lt (lt_arenaEnd_of_mem_select hp)
    rw [hbck]
    exact ⟨rfl, hlk.concat hnp hpos hend hnil⟩

theorem HashChains.link (h : HashChains L ks) (hk : k.hashed data = some pay)
    (hnew : pay ∉ payloads data ks) :
    HashChains (L.linkHash data (journalHash64 pay % buckets data) (arenaEnd ks)) (ks ++ [k]) := by
  have hb : journalHash64 pay % buckets data < buckets data := Nat.mod_lt _ (buckets_pos data)
  -- the bucket of the new object, and all others
  have hsf : inBucket data (journalHash64 pay % buckets data) k = true := by
    rw [inBucket_of_hashed hk]
    exact beq_self_eq_true _
  have hother : ∀ d' b', ¬(d' = data ∧ b' = journalHash64 pay % buckets data) →
      inBucket d' b' k = false := by
    intro d' b' hne
    cases hk' : k.hashed d' with
    | none => exact inBucket_of_none hk' b'
    | some p' =>
      obtain rfl := hashed_unique hk hk'
      rw [hk] at hk'
      obtain rfl := some.inj hk'
      rw [inBucket_of_hashed hk]
      exact beq_eq_false_iff_ne.mpr (hne ⟨rfl, ·.symm⟩)
  constructor
  · intro d' b' hb'
    by_cases hsa : d' = data ∧ b' = journalHash64 pay % buckets data
    · obtain ⟨rfl, rfl⟩ := hsa
      rw [select_concat_of_pos hsf]
      exact (h.linkHash_self hb).2
    obtain ⟨hbck, hlk⟩ := h.linkHash_other (p := arenaEnd ks) hb hb' hsa
    rw [select_concat_of_neg (hother d' b' hsa), hbck]
    exact hlk
  · intro d' b' hb'
    by_cases hsa : d' = data ∧ b' = journalHash64 pay % buckets data
    · obtain ⟨rfl, rfl⟩ := hsa
      rw [select_concat_of_pos hsf, (h.linkHash_self hb).1, getLastD_concat]
    rw [select_concat_of_neg (hother d' b' hsa), (h.linkHash_other (p := arenaEnd ks) hb hb' hsa).1]
    exact h.tail d' b' hb'
  · intro d'
    rw [payloads_concat]
    cases hk' : k.hashed d' with
    | none =>
      rw [toList_none, append_nil]
      exact h.unique d'
    | some p' =>
      obtain rfl := hashed_unique hk hk'
      rw [hk] at hk'
      obtain rfl := some.inj hk'
      rw [toList_some, nodup_append]
      refine ⟨h.unique d', pairwise_singleton _ _, ?_⟩
      rintro p' hmem _ hsi rfl
      rw [mem_singleton.mp hsi] at hmem
      exact hnew hmem
  · intro p hp
    rw [arenaEnd_concat] at hp
    have hrm := k.room_pos
    have hend := h.ended p (by omega)
    unfold Links.linkHash
    split
    · exact hend
    rename_i hne
    have hlt : (L.bucket data (journalHash64 pay % buckets data)).tailHashOffset <
        arenaEnd ks := by
      rw [h.tail data _ hb] at hne ⊢
      exact lt_arenaEnd_of_mem_select (Linked.getLastD_mem (fun hnil => hne (by rw [hnil]; rfl)))
    show update L.nextHash _ _ p = 0
    rw [update_of_ne (by omega), hend]

end

section

variable {L : Links} {ks : List Kind} {k : Kind} {p q : Nat} {payload pay name : List UInt8}

private theorem place_payload_unique {data : Bool} (h : (payloads data ks).Nodup)
    (hp : (p, k) ∈ place i ks)
    (hq : (q, k') ∈ place i ks) (hk : k.hashed data = some pay)
    (hk' : k'.hashed data = some pay) : p = q := by
  rw [payloads, ← map_snd_place i ks, filterMap_map, List.Nodup, pairwise_filterMap] at h
  rcases pairwise_cases h hp hq with heq | hap | hap
  · exact (Prod.mk.inj heq).1
  · exact absurd rfl (hap pay hk pay hk')
  · exact absurd rfl (hap pay hk' pay hk)

structure FieldLists (L : Links) (ks : List Kind) : Prop where
  linked : ∀ p name, (p, .field name) ∈ objects ks →
    Linked L.nextField (L.headData p) (select (dataOf name) ks).reverse
  hasField : ∀ payload, .data payload ∈ ks → .field (fieldName payload) ∈ ks
  blank : ∀ p, arenaEnd ks ≤ p → L.headData p = 0

theorem FieldLists.of_same (h : FieldLists L ks) (hsa : Links.SameFields L L') :
    FieldLists L' ks where
  linked := by
    rw [hsa.nextField, hsa.headData]
    exact h.linked
  hasField := h.hasField
  blank := by
    rw [hsa.headData]
    exact h.blank

theorem FieldLists.concat_other (h : FieldLists L ks) (hk : k.hashed true = none)
    (hnew : ∀ name, k.hashed false = some name → name ∉ payloads false ks) :
    FieldLists L (ks ++ [k]) where
  linked := by
    intro p name hmem
    have hda : dataOf name k = false := by
      cases k with
      | data pay => cases hk
      | _ => rfl
    rw [select_concat_of_neg hda]
    rcases mem_objects_concat.mp hmem with hold | ⟨rfl, rfl⟩
    · exact h.linked p name hold
    have hnil : select (dataOf name) ks = [] := by
      rw [eq_nil_iff_forall_not_mem]
      intro q hq
      obtain ⟨k, hk, hda⟩ := mem_select.mp hq
      cases k with
      | data pay =>
        have hfld := h.hasField pay (mem_of_mem_place hk)
        rw [beq_iff_eq.mp hda] at hfld
        exact hnew name rfl (mem_payloads.mpr ⟨_, hfld, rfl⟩)
      | _ => cases hda
    rw [hnil, h.blank _ (Nat.le_refl _)]
    rfl
  hasField := by
    intro pay hmem
    rcases mem_append.mp hmem with hold | hnew
    · exact mem_append_left _ (h.hasField pay hold)
    · rw [← mem_singleton.mp hnew] at hk
      cases hk
  blank := by
    intro p hp
    rw [arenaEnd_concat] at hp
    exact h.blank p (by omega)

theorem FieldLists.concat_data (h : FieldLists L ks) (hu : (payloads false ks).Nodup)
    (hq : (q, .field (fieldName payload)) ∈ objects ks) :
    FieldLists ((L.setNextField (arenaEnd ks) (L.headData q)).setHeadData q (arenaEnd ks))
      (ks ++ [.data payload]) where
  linked := by
    intro p name hmem
    have hold : (p, .field name) ∈ objects ks := by
      rcases mem_objects_concat.mp hmem with hold | ⟨-, heq⟩
      · exact hold
      · cases heq
    have hlk := h.linked p name hold
    have hfh : arenaEnd ks ∉ (select (dataOf name) ks).reverse := by
      rw [mem_reverse]
      exact fun hmem => Nat.lt_irrefl _ (lt_arenaEnd_of_mem_select hmem)
    show Linked (update L.nextField (arenaEnd ks) (L.headData q))
      (update L.headData q (arenaEnd ks) p) _
    by_cases hp : p = q
    · subst hp
      obtain rfl : name = fieldName payload := Kind.field.inj (place_unique hold hq)
      have hsf : dataOf (fieldName payload) (.data payload) = true := beq_self_eq_true _
      rw [select_concat_of_pos hsf, reverse_append, update_self]
      exact hlk.cons (Nat.ne_of_gt (arenaEnd_pos ks)) hfh
    · have hne : name ≠ fieldName payload := by
        rintro rfl
        exact hp (place_payload_unique hu hold hq rfl rfl)
      have hother : dataOf name (.data payload) = false := beq_eq_false_iff_ne.mpr (Ne.symm hne)
      rw [select_concat_of_neg hother, update_of_ne hp]
      exact hlk.update hfh _
  hasField := by
    intro p' hmem
    rcases mem_append.mp hmem with hold | hnew
    · exact mem_append_left _ (h.hasField p' hold)
    · obtain rfl := Kind.data.inj (mem_singleton.mp hnew)
      exact mem_append_left _ (mem_of_mem_place hq)
  blank := by
    intro p hp
    rw [arenaEnd_concat] at hp
    have hlt := lt_arenaEnd hq
    show update L.headData q (arenaEnd ks) p = 0
    rw [update_of_ne (by omega), h.blank p (by omega)]

end

end Rustd.JournalFile
