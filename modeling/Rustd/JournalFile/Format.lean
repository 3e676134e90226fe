import Rustd.Base.Bytes

/-!
# The journal file format

The part of `ffi/journal.c` that fixes the layout of journal files: the header, the objects, the
hash function and the names of fields. The packed structures are records of numbers and bytes with
an encoding and a decoding; numbers are stored with the least significant byte first.
-/

namespace Rustd.JournalFile

open Base List

inductive Errno where
  | io
  | fbig
  | badmsg
  | protonosupport
  | busy
  | stale
  | nomem
  | toobig
  deriving DecidableEq

abbrev Id128 := { bytes : List UInt8 // bytes.length = 16 }

section

/-- `JOURNAL_HEADER_SIZE` of `ffi/journal.c:474`. -/
def journalHeaderSize : Nat := 272

/-- Part of `JOURNAL_COMPATIBLE_TAIL_ENTRY_BOOT_ID`, `ffi/journal.c:475`. -/
def compatibleTailEntryBootId : Nat := 2

/-- `DATA_HASH_TABLE_BUCKETS` of `ffi/journal.c:476`. -/
def dataHashTableBuckets : Nat := 1024

/-- `FIELD_HASH_TABLE_BUCKETS` of `ffi/journal.c:477`. -/
def fieldHashTableBuckets : Nat := 333

def stateOffline : UInt8 := 0

def stateOnline : UInt8 := 1

def uint32Max : Nat := 2 ^ 32 - 1

def int64Max : Nat := 2 ^ 63 - 1

def uint64Max : Nat := 2 ^ 64 - 1

/-- Part of `OBJECT_UNUSED … OBJECT_ENTRY_ARRAY`, `ffi/journal.c:479`. -/
inductive ObjectType where
  | unused
  | data
  | field
  | entry
  | dataHashTable
  | fieldHashTable
  | entryArray
  deriving DecidableEq

def ObjectType.code : ObjectType → UInt8
  | .unused => 0
  | .data => 1
  | .field => 2
  | .entry => 3
  | .dataHashTable => 4
  | .fieldHashTable => 5
  | .entryArray => 6

def magic : List UInt8 := ascii "LPKSHHRH"

end

section

def word (n : Nat) : List UInt8 := littleEndian 8 n

def half (n : Nat) : List UInt8 := littleEndian 4 n

@[simp] theorem length_word (n : Nat) : (word n).length = 8 := length_littleEndian 8 n

@[simp] theorem length_half (n : Nat) : (half n).length = 4 := length_littleEndian 4 n

@[simp] theorem ofLittleEndian_word (h : n < 2 ^ 64) : ofLittleEndian (word n) = n :=
  ofLittleEndian_littleEndian h

@[simp] theorem ofLittleEndian_half (h : n < 2 ^ 32) : ofLittleEndian (half n) = n :=
  ofLittleEndian_littleEndian h

/-- Round up to a multiple of 8, in 64 bits. -/
def align64 (value : Nat) : Nat := (value + 7) % 2 ^ 64 / 8 * 8

end

section

/-- `ObjectHeader` of `ffi/journal.c:535`. -/
structure ObjectHeader where
  type : UInt8
  flags : UInt8 := 0
  reserved : List UInt8 := List.replicate 6 0
  size : Nat
  deriving DecidableEq

def ObjectHeader.encode (object : ObjectHeader) : List UInt8 :=
  [[object.type], [object.flags], object.reserved, word object.size].flatten

variable (bytes : List UInt8)

def ObjectHeader.decode : ObjectHeader :=
  match pieces [1, 1, 6, 8] bytes with
  | [type, flags, reserved, size] =>
    { type := type.headD 0, flags := flags.headD 0, reserved := reserved,
      size := ofLittleEndian size }
  | _ => { type := 0, size := 0 }

/-- `HashItem` of `ffi/journal.c:544`. -/
structure HashItem where
  headHashOffset : Nat
  tailHashOffset : Nat
  deriving DecidableEq

def HashItem.encode (item : HashItem) : List UInt8 :=
  [word item.headHashOffset, word item.tailHashOffset].flatten

def HashItem.decode : HashItem :=
  match pieces [8, 8] bytes with
  | [head, tail] =>
    { headHashOffset := ofLittleEndian head, tailHashOffset := ofLittleEndian tail }
  | _ => { headHashOffset := 0, tailHashOffset := 0 }

/-- `FieldObject` of `ffi/journal.c:551`. -/
structure FieldObject where
  object : ObjectHeader
  hash : Nat
  nextHashOffset : Nat := 0
  headDataOffset : Nat := 0
  deriving DecidableEq

def FieldObject.encode (field : FieldObject) : List UInt8 :=
  [field.object.encode, word field.hash, word field.nextHashOffset,
    word field.headDataOffset].flatten

def FieldObject.decode (bytes : List UInt8) : FieldObject :=
  match pieces [16, 8, 8, 8] bytes with
  | [object, hash, nextHash, headData] =>
    { object := .decode object, hash := ofLittleEndian hash,
      nextHashOffset := ofLittleEndian nextHash, headDataOffset := ofLittleEndian headData }
  | _ => { object := .decode [], hash := 0 }

/-- `DataObject` of `ffi/journal.c:560`. -/
structure DataObject where
  object : ObjectHeader
  hash : Nat
  nextHashOffset : Nat := 0
  nextFieldOffset : Nat := 0
  entryOffset : Nat := 0
  entryArrayOffset : Nat := 0
  nEntries : Nat := 0
  deriving DecidableEq

def DataObject.encode (data : DataObject) : List UInt8 :=
  [data.object.encode, word data.hash, word data.nextHashOffset, word data.nextFieldOffset,
    word data.entryOffset, word data.entryArrayOffset, word data.nEntries].flatten

def DataObject.decode (bytes : List UInt8) : DataObject :=
  match pieces [16, 8, 8, 8, 8, 8, 8] bytes with
  | [object, hash, nextHash, nextField, entry, entryArray, nEntries] =>
    { object := .decode object, hash := ofLittleEndian hash,
      nextHashOffset := ofLittleEndian nextHash, nextFieldOffset := ofLittleEndian nextField,
      entryOffset := ofLittleEndian entry, entryArrayOffset := ofLittleEndian entryArray,
      nEntries := ofLittleEndian nEntries }
  | _ => { object := .decode [], hash := 0 }

/-- `EntryObject` of `ffi/journal.c:572`. -/
structure EntryObject where
  object : ObjectHeader
  seqnum : Nat
  realtime : Nat
  monotonic : Nat
  bootId : Id128
  xorHash : Nat
  deriving DecidableEq

def EntryObject.encode (entry : EntryObject) : List UInt8 :=
  [entry.object.encode, word entry.seqnum, word entry.realtime, word entry.monotonic,
    entry.bootId.val, word entry.xorHash].flatten

/-- `EntryItem` of `ffi/journal.c:583`. -/
structure EntryItem where
  objectOffset : Nat
  hash : Nat
  deriving DecidableEq

def EntryItem.encode (item : EntryItem) : List UInt8 :=
  [word item.objectOffset, word item.hash].flatten

/-- `EntryArrayObject` of `ffi/journal.c:590`. -/
structure EntryArrayObject where
  object : ObjectHeader
  nextEntryArrayOffset : Nat := 0
  deriving DecidableEq

def EntryArrayObject.encode (array : EntryArrayObject) : List UInt8 :=
  [array.object.encode, word array.nextEntryArrayOffset].flatten

def EntryArrayObject.decode (bytes : List UInt8) : EntryArrayObject :=
  match pieces [16, 8] bytes with
  | [object, next] =>
    { object := .decode object, nextEntryArrayOffset := ofLittleEndian next }
  | _ => { object := .decode [] }

/-- `JournalFileHeader` of `ffi/journal.c:496`. -/
structure JournalFileHeader where
  signature : List UInt8 := magic
  compatibleFlags : Nat := compatibleTailEntryBootId
  incompatibleFlags : Nat := 0
  state : UInt8 := stateOnline
  reserved : List UInt8 := List.replicate 7 0
  fileId : List UInt8
  machineId : List UInt8
  tailEntryBootId : List UInt8
  seqnumId : List UInt8
  headerSize : Nat := journalHeaderSize
  arenaSize : Nat := 0
  dataHashTableOffset : Nat := 0
  dataHashTableSize : Nat := 0
  fieldHashTableOffset : Nat := 0
  fieldHashTableSize : Nat := 0
  tailObjectOffset : Nat := 0
  nObjects : Nat := 0
  nEntries : Nat := 0
  tailEntrySeqnum : Nat := 0
  headEntrySeqnum : Nat := 0
  entryArrayOffset : Nat := 0
  headEntryRealtime : Nat := 0
  tailEntryRealtime : Nat := 0
  tailEntryMonotonic : Nat := 0
  nData : Nat := 0
  nFields : Nat := 0
  nTags : Nat := 0
  nEntryArrays : Nat := 0
  dataHashChainDepth : Nat := 0
  fieldHashChainDepth : Nat := 0
  tailEntryArrayOffset : Nat := 0
  tailEntryArrayNEntries : Nat := 0
  tailEntryOffset : Nat := 0
  deriving DecidableEq

namespace JournalFileHeader

variable (h : JournalFileHeader)

/-- The fields in the order in which they are stored. -/
def cells : List (List UInt8) :=
  [h.signature, half h.compatibleFlags, half h.incompatibleFlags, [h.state], h.reserved,
    h.fileId, h.machineId, h.tailEntryBootId, h.seqnumId,
    word h.headerSize, word h.arenaSize, word h.dataHashTableOffset, word h.dataHashTableSize,
    word h.fieldHashTableOffset, word h.fieldHashTableSize, word h.tailObjectOffset,
    word h.nObjects, word h.nEntries, word h.tailEntrySeqnum, word h.headEntrySeqnum,
    word h.entryArrayOffset, word h.headEntryRealtime, word h.tailEntryRealtime,
    word h.tailEntryMonotonic, word h.nData, word h.nFields, word h.nTags, word h.nEntryArrays,
    word h.dataHashChainDepth, word h.fieldHashChainDepth, half h.tailEntryArrayOffset,
    half h.tailEntryArrayNEntries, word h.tailEntryOffset]

def encode : List UInt8 := h.cells.flatten

def widths : List Nat :=
  [8, 4, 4, 1, 7, 16, 16, 16, 16, 8, 8, 8, 8, 8, 8, 8, 8, 8, 8, 8, 8, 8, 8, 8, 8, 8, 8, 8, 8, 8,
    4, 4, 8]

def decode (bytes : List UInt8) : JournalFileHeader :=
  let cell := fun i => (pieces widths bytes).getD i []
  { signature := cell 0
    compatibleFlags := ofLittleEndian (cell 1)
    incompatibleFlags := ofLittleEndian (cell 2)
    state := (cell 3).headD 0
    reserved := cell 4
    fileId := cell 5
    machineId := cell 6
    tailEntryBootId := cell 7
    seqnumId := cell 8
    headerSize := ofLittleEndian (cell 9)
    arenaSize := ofLittleEndian (cell 10)
    dataHashTableOffset := ofLittleEndian (cell 11)
    dataHashTableSize := ofLittleEndian (cell 12)
    fieldHashTableOffset := ofLittleEndian (cell 13)
    fieldHashTableSize := ofLittleEndian (cell 14)
    tailObjectOffset := ofLittleEndian (cell 15)
    nObjects := ofLittleEndian (cell 16)
    nEntries := ofLittleEndian (cell 17)
    tailEntrySeqnum := ofLittleEndian (cell 18)
    headEntrySeqnum := ofLittleEndian (cell 19)
    entryArrayOffset := ofLittleEndian (cell 20)
    headEntryRealtime := ofLittleEndian (cell 21)
    tailEntryRealtime := ofLittleEndian (cell 22)
    tailEntryMonotonic := ofLittleEndian (cell 23)
    nData := ofLittleEndian (cell 24)
    nFields := ofLittleEndian (cell 25)
    nTags := ofLittleEndian (cell 26)
    nEntryArrays := ofLittleEndian (cell 27)
    dataHashChainDepth := ofLittleEndian (cell 28)
    fieldHashChainDepth := ofLittleEndian (cell 29)
    tailEntryArrayOffset := ofLittleEndian (cell 30)
    tailEntryArrayNEntries := ofLittleEndian (cell 31)
    tailEntryOffset := ofLittleEndian (cell 32) }

def words : List Nat :=
  [h.headerSize, h.arenaSize, h.dataHashTableOffset, h.dataHashTableSize, h.fieldHashTableOffset,
    h.fieldHashTableSize, h.tailObjectOffset, h.nObjects, h.nEntries, h.tailEntrySeqnum,
    h.headEntrySeqnum, h.entryArrayOffset, h.headEntryRealtime, h.tailEntryRealtime,
    h.tailEntryMonotonic, h.nData, h.nFields, h.nTags, h.nEntryArrays, h.dataHashChainDepth,
    h.fieldHashChainDepth, h.tailEntryOffset]

def halves : List Nat :=
  [h.compatibleFlags, h.incompatibleFlags, h.tailEntryArrayOffset, h.tailEntryArrayNEntries]

structure Fits (h : JournalFileHeader) : Prop where
  words : ∀ n ∈ h.words, n < 2 ^ 64
  halves : ∀ n ∈ h.halves, n < 2 ^ 32
  signature : h.signature.length = 8
  reserved : h.reserved.length = 7
  fileId : h.fileId.length = 16
  machineId : h.machineId.length = 16
  tailEntryBootId : h.tailEntryBootId.length = 16
  seqnumId : h.seqnumId.length = 16

variable {h : JournalFileHeader}

theorem Fits.widths (hft : h.Fits) : h.cells.map List.length = widths := by
  simp [cells, JournalFileHeader.widths, hft.signature, hft.reserved, hft.fileId,
    hft.machineId, hft.tailEntryBootId, hft.seqnumId]

theorem Fits.length_encode (hft : h.Fits) : h.encode.length = journalHeaderSize := by
  rw [encode, length_flatten, hft.widths]
  rfl

theorem decode_encode (hft : h.Fits) : decode h.encode = h := by
  have hwd : ∀ n ∈ h.words, ofLittleEndian (word n) = n :=
    fun n hn => ofLittleEndian_word (hft.words n hn)
  have hha : ∀ n ∈ h.halves, ofLittleEndian (half n) = n :=
    fun n hn => ofLittleEndian_half (hft.halves n hn)
  simp only [JournalFileHeader.words, JournalFileHeader.halves, forall_mem_cons] at hwd hha
  rw [decode, encode, pieces_flatten hft.widths]
  simp [cells, hwd, hha]

end JournalFileHeader

def ObjectType.header (type : ObjectType) (size : Nat) : ObjectHeader :=
  { type := type.code, size := size }

variable (type : ObjectType)

theorem length_encode_header (s : Nat) : (type.header s).encode.length = 16 := by
  simp [ObjectHeader.encode, ObjectType.header]

theorem decode_encode_header {size : Nat} (h : size < 2 ^ 64) :
    ObjectHeader.decode (type.header size).encode = type.header size := by
  rw [ObjectHeader.encode, ObjectHeader.decode, pieces_flatten (by simp [ObjectType.header])]
  simp only [ObjectType.header, ofLittleEndian_word h]
  rfl

theorem HashItem.length_encode (a : HashItem) : a.encode.length = 16 := by
  simp [HashItem.encode]

theorem HashItem.decode_encode {item : HashItem} (hhd : item.headHashOffset < 2 ^ 64)
    (htl : item.tailHashOffset < 2 ^ 64) : HashItem.decode item.encode = item := by
  rw [HashItem.encode, HashItem.decode, pieces_flatten (by simp)]
  simp only [ofLittleEndian_word hhd, ofLittleEndian_word htl]

end

section

/-- `ROT32` of `ffi/journal.c:688`. -/
def rot32 (x k : UInt32) : UInt32 := (x <<< k) ||| (x >>> (32 - k))

/-- `JENKINS_MIX` of `ffi/journal.c:689`. -/
def jenkinsMix (a b c : UInt32) : UInt32 × UInt32 × UInt32 :=
  let a := a - c
  let a := a ^^^ rot32 c 4
  let c := c + b
  let b := b - a
  let b := b ^^^ rot32 a 6
  let a := a + c
  let c := c - b
  let c := c ^^^ rot32 b 8
  let b := b + a
  let a := a - c
  let a := a ^^^ rot32 c 16
  let c := c + b
  let b := b - a
  let b := b ^^^ rot32 a 19
  let a := a + c
  let c := c - b
  let c := c ^^^ rot32 b 4
  let b := b + a
  (a, b, c)

/-- `JENKINS_FINAL` of `ffi/journal.c:711`. -/
def jenkinsFinal (a b c : UInt32) : UInt32 × UInt32 × UInt32 :=
  let c := c ^^^ b
  let c := c - rot32 b 14
  let a := a ^^^ c
  let a := a - rot32 c 11
  let b := b ^^^ a
  let b := b - rot32 a 25
  let c := c ^^^ b
  let c := c - rot32 b 16
  let a := a ^^^ c
  let a := a - rot32 c 4
  let b := b ^^^ a
  let b := b - rot32 a 14
  let c := c ^^^ b
  let c := c - rot32 b 24
  (a, b, c)

def fourBytes (k : List UInt8) (i : Nat) : UInt32 :=
  (k.getD i 0).toUInt32 + ((k.getD (i + 1) 0).toUInt32 <<< 8) +
    ((k.getD (i + 2) 0).toUInt32 <<< 16) + ((k.getD (i + 3) 0).toUInt32 <<< 24)

/-- The blocks of 12 bytes that are followed by more. -/
def hashBlocks : Nat → List UInt8 → UInt32 × UInt32 × UInt32 →
    List UInt8 × UInt32 × UInt32 × UInt32
  | 0, k, state => (k, state)
  | fuel + 1, k, (a, b, c) =>
    if 12 < k.length then
      hashBlocks fuel (k.drop 12)
        (jenkinsMix (a + fourBytes k 0) (b + fourBytes k 4) (c + fourBytes k 8))
    else (k, a, b, c)

/-- `journal_hash64` of `ffi/journal.c:731`. -/
def journalHash64 (data : List UInt8) : Nat :=
  let a := (0xdeadbeef : UInt32) + UInt32.ofNat data.length
  let (k, a, b, c) := hashBlocks data.length data (a, a, a)
  if k = [] then ((c.toUInt64 <<< 32) ||| b.toUInt64).toNat
  else
    let (_, b, c) := jenkinsFinal (a + fourBytes k 0) (b + fourBytes k 4) (c + fourBytes k 8)
    ((c.toUInt64 <<< 32) ||| b.toUInt64).toNat

theorem journalHash64_lt (d : List UInt8) : journalHash64 d < 2 ^ 64 := by
  unfold journalHash64
  dsimp only
  split
  · exact UInt64.toNat_lt _
  · exact UInt64.toNat_lt _

end

section

def separator : UInt8 := 61

def isNameByte (b : UInt8) : Bool :=
  (65 ≤ b && b ≤ 90) || (48 ≤ b && b ≤ 57) || b == 95

/-- `journal_field_valid` of `ffi/journal.c:770`. -/
def journalFieldValid (key : List UInt8) : Bool :=
  key != [] && decide (key.length ≤ 64) && !(48 ≤ key.headD 0 && key.headD 0 ≤ 57) &&
    key.all isNameByte

/-- A field of an entry; `SdJournalField`. -/
structure Field where
  key : List UInt8
  value : List UInt8
  deriving DecidableEq

/-- The payload of a data object. -/
def Field.payload (field : Field) : List UInt8 := field.key ++ separator :: field.value

def fieldName (payload : List UInt8) : List UInt8 := payload.takeWhile (· != separator)

private theorem separator_not_mem {key : List UInt8} (h : journalFieldValid key = true) :
    separator ∉ key := by
  intro hmem
  have hall : key.all isNameByte = true := by
    simp only [journalFieldValid, Bool.and_eq_true] at h
    exact h.2
  have hby := List.all_eq_true.mp hall separator hmem
  revert hby
  decide

theorem fieldName_payload {f : Field} (h : journalFieldValid f.key = true) :
    fieldName f.payload = f.key :=
  takeWhile_separator (separator_not_mem h) f.value

end

end Rustd.JournalFile
