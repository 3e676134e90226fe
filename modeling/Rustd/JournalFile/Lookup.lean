import Rustd.JournalFile.Links

/-!
# Reading journal files

What the functions of the source read in a file that represents a list of objects: the structures
at the offsets of the objects, and the object that a hash table has for a payload.
-/

namespace Rustd.JournalFile

open Base List Function

structure Links.Small (L : Links) : Prop where
  bucketHead : ∀ data b, (L.bucket data b).headHashOffset < 2 ^ 64
  bucketTail : ∀ data b, (L.bucket data b).tailHashOffset < 2 ^ 64
  nextHash : ∀ p, L.nextHash p < 2 ^ 64
  headData : ∀ p, L.headData p < 2 ^ 64
  nextField : ∀ p, L.nextField p < 2 ^ 64
  entryOffset : ∀ p, L.entryOffset p < 2 ^ 64
  entryArray : ∀ p, L.entryArray p < 2 ^ 64
  nEntries : ∀ p, L.nEntries p < 2 ^ 64
  nextArray : ∀ p, L.nextArray p < 2 ^ 64

section

variable {L : Links} {t q : Nat}

private theorem update_lt (h : ∀ p, g p < n) (hq : q < n) (p : Nat) : update g t q p < n := by
  by_cases hp : p = t
  · rw [hp, update_self]
    exact hq
  · rw [update_of_ne hp]
    exact h p

theorem Links.Small.setNextHash (h : L.Small) (hq : q < 2 ^ 64) : (L.setNextHash t q).Small :=
  { h with nextHash := update_lt h.nextHash hq }

theorem Links.Small.setHeadData (h : L.Small) (hq : q < 2 ^ 64) : (L.setHeadData t q).Small :=
  { h with headData := update_lt h.headData hq }

theorem Links.Small.setNextField (h : L.Small) (hq : q < 2 ^ 64) : (L.setNextField t q).Small :=
  { h with nextField := update_lt h.nextField hq }

theorem Links.Small.setNextArray (h : L.Small) (hq : q < 2 ^ 64) : (L.setNextArray t q).Small :=
  { h with nextArray := update_lt h.nextArray hq }

theorem Links.Small.setEntries (h : L.Small) (hent : e < 2 ^ 64)
    (har : a < 2 ^ 64) (hcn : n < 2 ^ 64) : (L.setEntries t e a n).Small :=
  { h with
    entryOffset := update_lt h.entryOffset hent
    entryArray := update_lt h.entryArray har
    nEntries := update_lt h.nEntries hcn }

theorem Links.Small.setBucket (h : L.Small) {data : Bool}
    (hhd : a.headHashOffset < 2 ^ 64) (htl : a.tailHashOffset < 2 ^ 64) :
    (L.setBucket data b a).Small :=
  { h with
    bucketHead := by
      intro d c
      show (if d = data ∧ c = b then a else L.bucket d c).headHashOffset < 2 ^ 64
      split
      · exact hhd
      · exact h.bucketHead d c
    bucketTail := by
      intro d c
      show (if d = data ∧ c = b then a else L.bucket d c).tailHashOffset < 2 ^ 64
      split
      · exact htl
      · exact h.bucketTail d c }

end

section

variable {L : Links} {p : Nat}

theorem decode_field (hL : L.Small) {name : List UInt8} (hsz : fieldBase + name.length < 2 ^ 64) :
    FieldObject.decode (L.field p name).encode = L.field p name := by
  rw [FieldObject.encode, FieldObject.decode,
    pieces_flatten (by simp [Links.field, length_encode_header])]
  simp only [Links.field, decode_encode_header _ hsz, ofLittleEndian_word (journalHash64_lt name),
    ofLittleEndian_word (hL.nextHash p), ofLittleEndian_word (hL.headData p)]

theorem decode_data (hL : L.Small) {payload : List UInt8}
    (hsz : dataBase + payload.length < 2 ^ 64) :
    DataObject.decode (L.data p payload).encode = L.data p payload := by
  rw [DataObject.encode, DataObject.decode,
    pieces_flatten (by simp [Links.data, length_encode_header])]
  simp only [Links.data, decode_encode_header _ hsz,
    ofLittleEndian_word (journalHash64_lt payload), ofLittleEndian_word (hL.nextHash p),
    ofLittleEndian_word (hL.nextField p), ofLittleEndian_word (hL.entryOffset p),
    ofLittleEndian_word (hL.entryArray p), ofLittleEndian_word (hL.nEntries p)]

theorem decode_array (hL : L.Small) : EntryArrayObject.decode (L.array p).encode = L.array p := by
  rw [EntryArrayObject.encode, EntryArrayObject.decode,
    pieces_flatten (by simp [Links.array, length_encode_header])]
  simp only [Links.array, decode_encode_header _ (by decide : arrayBase + 8 < 2 ^ 64),
    ofLittleEndian_word (hL.nextArray p)]

end

section

def Kind.hashed (data : Bool) : Kind → Option (List UInt8)
  | .data payload => if data then some payload else none
  | .field name => if data then none else some name
  | _ => none

def hashedType (data : Bool) : ObjectType := if data then .data else .field

def hashedBase (data : Bool) : Nat := if data then dataBase else fieldBase

variable {f : File} {L : Links} {ks : List Kind} {p : Nat} {k : Kind} {data : Bool}
  {payload pay : List UInt8}

private theorem Kind.size_of_hashed (h : k.hashed data = some pay) :
    k.size = hashedBase data + pay.length := by
  cases k <;> cases data <;> simp_all [Kind.hashed, Kind.size, hashedBase]

theorem size_lt (hbn : arenaEnd ks < 2 ^ 63) (hmem : (p, k) ∈ objects ks) : k.size < 2 ^ 63 := by
  have hbo := (bounds_of_mem_place hmem).2
  have hrm := k.size_le_room
  unfold arenaEnd at hbn
  omega

variable {next size base : Nat} {payload' : List UInt8} {Q : Bool → File → Prop}

private theorem decode_hashed (ty : ObjectType) {hash : Nat} (hsz : size < 2 ^ 64)
    (hha : hash < 2 ^ 64) (hnx : next < 2 ^ 64) (rest : List UInt8) :
    HashedObject.decode ((ty.header size).encode ++ (word hash ++ (word next ++ rest))) =
      { object := ty.header size, hash := hash, nextHashOffset := next } := by
  have hbt : (ty.header size).encode ++ (word hash ++ (word next ++ rest)) =
      [(ty.header size).encode, word hash, word next].flatten ++ rest := by simp
  rw [hbt, HashedObject.decode, pieces_append (by simp [length_encode_header])]
  simp only [decode_encode_header ty hsz, ofLittleEndian_word hha, ofLittleEndian_word hnx]

theorem Represents.hashed (hrep : Represents f L ks) (hL : L.Small) (hbn : arenaEnd ks < 2 ^ 63)
    (hmem : (p, k) ∈ objects ks) (h : k.hashed data = some payload) :
    ∃ bs, f.read? p (hashedBase data) = some bs ∧
      HashedObject.decode bs =
        { object := (hashedType data).header (hashedBase data + payload.length)
          hash := journalHash64 payload
          nextHashOffset := L.nextHash p } ∧
      f.Holds (p + hashedBase data) payload := by
  have hsd := hrep.stored p k hmem
  have hsz : hashedBase data + payload.length < 2 ^ 64 := by
    have hlt := size_lt hbn hmem
    rw [Kind.size_of_hashed h] at hlt
    omega
  have hde (l : List UInt8) := decode_hashed (hashedType data) hsz
    (journalHash64_lt payload) (hL.nextHash p) l
  cases k with
  | data payload' =>
    cases data with
    | false => cases h
    | true =>
      obtain rfl : payload' = payload := Option.some.inj h
      refine ⟨(L.data p payload').encode, ?_, ?_, ?_⟩
      · exact hsd.left.read?_of_length (L.length_data p payload')
      · rw [← hde (word (L.nextField p) ++ (word (L.entryOffset p) ++
          (word (L.entryArray p) ++ word (L.nEntries p))))]
        simp [DataObject.encode, Links.data, hashedType, hashedBase]
      have hri := hsd.right
      rw [L.length_data] at hri
      exact hri
  | field u =>
    cases data with
    | true => cases h
    | false =>
      obtain rfl : u = payload := Option.some.inj h
      refine ⟨(L.field p u).encode, ?_, ?_, ?_⟩
      · exact hsd.left.read?_of_length (L.length_field p u)
      · rw [← hde (word (L.headData p))]
        simp [FieldObject.encode, Links.field, hashedType, hashedBase]
      have hri := hsd.right
      rw [L.length_field] at hri
      exact hri
  | table | entry | array => cases h

open Program

variable {supported sup : Bool} {E : Errno → Prop}

theorem ensures_memory {Q : Unit → File → Prop} (hsz : size ≤ int64Max) (h : Q () f) :
    (memory size).Ensures sup f E Q := by
  rw [memory, if_neg (Nat.not_lt.mpr hsz)]
  exact h

private theorem ensures_payloadEquals (hhl : f.Holds (p + base) pay)
    (hsz : payload'.length ≤ int64Max) (h : Q (decide (pay = payload')) f) :
    (payloadEquals p base (base + pay.length) payload').Ensures sup f E Q := by
  unfold payloadEquals
  split
  · next hne =>
    have hpd : pay ≠ payload' := by
      rintro rfl
      exact hne rfl
    rw [decide_eq_false hpd] at h
    exact h
  · next heq =>
    have hln : pay.length = payload'.length := by omega
    apply ensures_bind
    apply ensures_memory hsz
    apply ensures_bind
    apply ensures_readAt (hhl.read?_of_length hln)
    show Q (pay == payload') f
    rw [← Bool.beq_eq_decide_eq] at h
    exact h

private theorem ensures_sameObject (hhl : f.Holds (p + base) pay)
    (hsz : payload'.length ≤ int64Max) (hob : ob.size = base + pay.length)
    (h : Q (decide (pay = payload')) f) : (sameObject ⟨ob, journalHash64 pay, next⟩ p base payload'
      (journalHash64 payload')).Ensures
      sup f E Q := by
  unfold sameObject
  split
  · rw [hob]
    exact ensures_payloadEquals hhl hsz h
  rename_i hha
  have hne : pay ≠ payload' := by
    rintro rfl
    exact hha rfl
  rw [decide_eq_false hne] at h
  exact h

def HasPayload (ks : List Kind) (data : Bool) (payload : List UInt8) (p : Nat) : Prop :=
  ∃ k, (p, k) ∈ objects ks ∧ k.hashed data = some payload

theorem ensures_findFrom (hrep : Represents f L ks) (hL : L.Small) (hbn : arenaEnd ks < 2 ^ 63)
    (hsz : payload.length ≤ int64Max)
    (hlk : Linked L.nextHash p l) (hig : l.Pairwise (· < ·))
    (hmem : ∀ q ∈ l, ∃ payload', HasPayload ks data payload' q) (hfue : l.length < fu) :
    (findFrom (hashedType data) (hashedBase data) payload (journalHash64 payload) fu p).Ensures
      supported f E (fun fo f' => f' = f ∧
        match fo with
        | some q => HasPayload ks data payload q
        | none => ∀ q ∈ l, ¬HasPayload ks data payload q) := by
  induction l generalizing p fu with
  | nil =>
    obtain rfl : p = 0 := hlk
    cases fu with
    | zero => exact absurd hfue (Nat.not_lt_zero _)
    | succ fu =>
      rw [findFrom, if_pos rfl]
      exact ⟨rfl, fun q hq => absurd hq not_mem_nil⟩
  | cons q l ih =>
    obtain ⟨rfl, hp, hnx⟩ := hlk
    obtain ⟨payload', k, hk, hpd⟩ := hmem p mem_cons_self
    obtain ⟨bs, hrea, hde, hhl⟩ := hrep.hashed hL hbn hk hpd
    rw [pairwise_cons] at hig
    have hrest : ∀ q ∈ l, ∃ payload', HasPayload ks data payload' q :=
      fun q hq => hmem q (mem_cons_of_mem p hq)
    cases fu with
    | zero => exact absurd hfue (Nat.not_lt_zero _)
    | succ fu =>
      have hwl := ih hnx hig.2 hrest (Nat.lt_of_succ_lt_succ hfue)
      rw [findFrom, if_neg hp]
      apply ensures_bind
      apply ensures_readAt hrea
      have htp : ((hashedType data).header (hashedBase data + payload'.length)).type =
          (hashedType data).code := rfl
      rw [hde]
      dsimp only
      rw [if_neg (not_not_intro htp)]
      apply ensures_bind
      apply ensures_sameObject hhl hsz rfl
      by_cases heq : payload' = payload
      · subst heq
        rw [if_pos (decide_eq_true rfl)]
        exact ⟨rfl, k, hk, hpd⟩
      have hfo : ¬(L.nextHash p ≠ 0 ∧ L.nextHash p ≤ p) := by
        rintro ⟨hne, hle⟩
        cases l with
        | nil => exact hne hnx
        | cons q l =>
          have hlt := hig.1 q mem_cons_self
          rw [hnx.1] at hle
          omega
      rw [if_neg (by rw [decide_eq_false heq]; exact Bool.false_ne_true), if_neg hfo]
      apply hwl.mono
      rintro fo f'' ⟨rfl, hfn⟩
      refine ⟨rfl, ?_⟩
      cases fo with
      | some q => exact hfn
      | none =>
        intro q hq
        rcases mem_cons.mp hq with rfl | hq
        · rintro ⟨k', hk', hpd'⟩
          rw [place_unique hk' hk, hpd] at hpd'
          exact heq (Option.some.inj hpd')
        · exact hfn q hq

end

end Rustd.JournalFile
