import Rustd.Base.FileProgram
import Rustd.JournalFile.Format

/-!
# Writing journal files

The part of `ffi/journal.c` that creates journal files and appends entries to them, as programs on
the file. The header is read once, changed in memory by the functions that append objects, and
written at the end. Memory can be had for objects of up to half the address space.
-/

namespace Rustd.JournalFile

open Base

/-- The sizes of the structures before a payload. -/
def fieldBase : Nat := 40

def dataBase : Nat := 64

def entryBase : Nat := 64

def arrayBase : Nat := 24

section

def memory (size : Nat) : Program Errno Unit :=
  if int64Max < size then .fail .nomem else .call (pure ())

/-- The file system may not be able to reserve room. -/
def allocateRange (offset size : Nat) : Program Errno Unit :=
  if uint64Max - offset < size ∨ int64Max < offset + size then .fail .fbig
  else .reserve offset size
    (.truncate (offset + size)
      (if 0 < size then .writeAt (offset + size - 1) [0] else pure ()))
    (pure ())

/-- `header_read` of `ffi/journal.c:657`. -/
def headerRead : Program Errno JournalFileHeader := do
  let bytes ← .readAt 0 journalHeaderSize .io
  let header := JournalFileHeader.decode bytes
  if header.signature ≠ magic then .fail .badmsg
  else if header.headerSize < journalHeaderSize then .fail .protonosupport
  else if header.incompatibleFlags ≠ 0 then .fail .protonosupport
  else if header.compatibleFlags &&& (uint32Max - compatibleTailEntryBootId) ≠ 0 then
    .fail .protonosupport
  else pure header

/-- `header_write` of `ffi/journal.c:673`. -/
def headerWrite (header : JournalFileHeader) : Program Errno Unit := .writeAt 0 header.encode

/-- The state is the byte at offset 16. -/
def markState (state : UInt8) : Program Errno Unit :=
  .call (.write 16 [state] (.call (pure ())))

end

section

/-- `read_object_header` of `ffi/journal.c:783`. -/
def readObjectHeader (offset : Nat) : Program Errno ObjectHeader := do
  let bytes ← .readAt offset 16 .io
  let object := ObjectHeader.decode bytes
  if object.type ≤ ObjectType.unused.code ∨ ObjectType.entryArray.code < object.type ∨
      object.size < 16 then .fail .badmsg
  else pure object

variable (header : JournalFileHeader) (dataTable : Bool) (field : List UInt8) (entryOffset : Nat)
  (type : ObjectType) (hash : Nat)

/-- Where the next object goes. -/
def nextOffset : Program Errno Nat :=
  if header.tailObjectOffset = 0 then pure header.headerSize
  else do
    let tail ← readObjectHeader header.tailObjectOffset
    if uint64Max - align64 tail.size < header.tailObjectOffset then .fail .fbig
    else pure (header.tailObjectOffset + align64 tail.size)

/-- `append_zero_object` of `ffi/journal.c:793`. -/
def appendZeroObject (size : Nat) :
    Program Errno (JournalFileHeader × Nat) := do
  let p ← nextOffset header
  if uint64Max - align64 size < p then .fail .fbig
  else do
    allocateRange p (align64 size)
    .writeAt p (type.header size).encode
    pure ({ header with
      tailObjectOffset := p
      nObjects := header.nObjects + 1
      arenaSize := p + align64 size - header.headerSize }, p)

/-- The bucket of a hash value in the table of data or of fields. -/
def hashItemFor :
    Program Errno (HashItem × Nat) := do
  let tableOffset := if dataTable then header.dataHashTableOffset else header.fieldHashTableOffset
  let tableSize := if dataTable then header.dataHashTableSize else header.fieldHashTableSize
  let buckets := tableSize / 16
  if tableOffset = 0 ∨ buckets = 0 then .fail .badmsg
  else do
    let offset := tableOffset + hash % buckets * 16
    let bytes ← .readAt offset 16 .io
    pure (HashItem.decode bytes, offset)

/-- `payload_equals` of `ffi/journal.c:847`. -/
def payloadEquals (objectOffset baseSize objectSize : Nat) (payload : List UInt8) :
    Program Errno Bool :=
  if objectSize ≠ baseSize + payload.length then pure false
  else do
    memory payload.length
    let buffer ← .readAt (objectOffset + baseSize) payload.length .io
    pure (buffer == payload)

structure HashedObject where
  object : ObjectHeader
  hash : Nat
  nextHashOffset : Nat

def HashedObject.decode (bytes : List UInt8) : HashedObject :=
  match pieces [16, 8, 8] bytes with
  | [object, hash, nextHash] =>
    { object := .decode object, hash := ofLittleEndian hash,
      nextHashOffset := ofLittleEndian nextHash }
  | _ => { object := .decode [], hash := 0, nextHashOffset := 0 }

/-- Only an object with the same hash is compared. -/
def sameObject (object : HashedObject) (p base : Nat) (payload : List UInt8) (hash : Nat) :
    Program Errno Bool :=
  if object.hash = hash then payloadEquals p base object.object.size payload else pure false

/-- Walk along a bucket; the offsets increase, so the walk is over before they run out of 64
bits. -/
def findFrom (type : ObjectType) (base : Nat) (payload : List UInt8) (hash : Nat) :
    Nat → Nat → Program Errno (Option Nat)
  | 0, _ => pure none
  | fuel + 1, p =>
    if p = 0 then pure none
    else do
      let bytes ← .readAt p base .io
      let object := HashedObject.decode bytes
      if object.object.type ≠ type.code then .fail .badmsg
      else do
        let equal ← sameObject object p base payload hash
        if equal then pure (some p)
        else if object.nextHashOffset ≠ 0 ∧ object.nextHashOffset ≤ p then .fail .badmsg
        else findFrom type base payload hash fuel object.nextHashOffset

def findObject (base : Nat) (payload : List UInt8) (hash : Nat) : Program Errno (Option Nat) := do
  let (item, _) ← hashItemFor header dataTable hash
  findFrom type base payload hash (2 ^ 64) item.headHashOffset

/-- `find_field_object` of `ffi/journal.c:864`. -/
def findFieldObject : Program Errno (Option Nat) :=
  findObject header false .field fieldBase field hash

/-- `find_data_object` of `ffi/journal.c:898`. -/
def findDataObject (data : List UInt8) (hash : Nat) : Program Errno (Option Nat) :=
  findObject header true .data dataBase data hash

/-- The link to the next object of a bucket is at offset 24 of fields and data. -/
def linkHashObject (objectOffset : Nat) :
    Program Errno Unit := do
  let (item, itemOffset) ← hashItemFor header dataTable hash
  if item.tailHashOffset = 0 then
    .writeAt itemOffset
      ({ headHashOffset := objectOffset, tailHashOffset := objectOffset } : HashItem).encode
  else do
    .writeAt (item.tailHashOffset + 24) (word objectOffset)
    .writeAt itemOffset ({ item with tailHashOffset := objectOffset } : HashItem).encode

/-- `append_field_object` of `ffi/journal.c:955`. -/
def appendFieldObject : Program Errno (JournalFileHeader × Nat) :=
  if journalFieldValid field then do
    let hash := journalHash64 field
    match ← findFieldObject header field hash with
    | some offset => pure (header, offset)
    | none => do
      let (header, offset) ← appendZeroObject header .field (fieldBase + field.length)
      .writeAt offset
        ({ object := ObjectType.field.header (fieldBase + field.length), hash } :
          FieldObject).encode
      .writeAt (offset + fieldBase) field
      linkHashObject header false hash offset
      pure ({ header with nFields := header.nFields + 1 }, offset)
  else .fail .badmsg

/-- `DataReference` of `ffi/journal.c:990`. -/
structure DataReference where
  offset : Nat
  hash : Nat
  deriving DecidableEq

/-- The list of the data of a field begins at offset 32 of the field. -/
def appendDataObject (field : Field) : Program Errno (JournalFileHeader × DataReference) :=
  if journalFieldValid field.key then
    if uint64Max - 1 - field.value.length < field.key.length then .fail .toobig
    else do
      memory field.payload.length
      let hash := journalHash64 field.payload
      match ← findDataObject header field.payload hash with
      | some offset => pure (header, { offset, hash })
      | none => do
        let (header, fieldOffset) ← appendFieldObject header field.key
        let fieldBytes ← .readAt fieldOffset fieldBase .io
        let fieldObject := FieldObject.decode fieldBytes
        let (header, offset) ← appendZeroObject header .data (dataBase + field.payload.length)
        .writeAt offset
          ({ object := ObjectType.data.header (dataBase + field.payload.length), hash
             nextFieldOffset := fieldObject.headDataOffset } : DataObject).encode
        .writeAt (offset + dataBase) field.payload
        linkHashObject header true hash offset
        .writeAt (fieldOffset + 32) (word offset)
        pure ({ header with nData := header.nData + 1 }, { offset, hash })
  else .fail .badmsg

/-- An array has room for one entry. -/
def appendEntryArray :
    Program Errno (JournalFileHeader × Nat) := do
  let (header, offset) ← appendZeroObject header .entryArray (arrayBase + 8)
  .writeAt offset
    ({ object := ObjectType.entryArray.header (arrayBase + 8) } : EntryArrayObject).encode
  .writeAt (offset + arrayBase) (word entryOffset)
  pure ({ header with nEntryArrays := header.nEntryArrays + 1 }, offset)

/-- Walk to the last array and link the new one to it, at offset 16. -/
def linkLastArray (newArray : Nat) : Nat → Nat → Program Errno Unit
  | 0, _ => pure ()
  | fuel + 1, p => do
    let bytes ← .readAt p arrayBase .io
    let array := EntryArrayObject.decode bytes
    if array.object.type ≠ ObjectType.entryArray.code then .fail .badmsg
    else if array.nextEntryArrayOffset = 0 then .writeAt (p + 16) (word newArray)
    else if array.nextEntryArrayOffset ≤ p then .fail .badmsg
    else linkLastArray newArray fuel array.nextEntryArrayOffset

/-- `append_data_entry_reference` of `ffi/journal.c:1096`. -/
def appendDataEntryReference (dataOffset entryOffset : Nat) :
    Program Errno JournalFileHeader := do
  let bytes ← .readAt dataOffset dataBase .io
  let data := DataObject.decode bytes
  if data.object.type ≠ ObjectType.data.code then .fail .badmsg
  else if data.nEntries = 0 then do
    .writeAt dataOffset { data with entryOffset := entryOffset, nEntries := 1 }.encode
    pure header
  else do
    let (header, newArray) ← appendEntryArray header entryOffset
    if data.entryArrayOffset = 0 then do
      .writeAt dataOffset
        { data with entryArrayOffset := newArray, nEntries := data.nEntries + 1 }.encode
      pure header
    else do
      linkLastArray newArray (2 ^ 64) data.entryArrayOffset
      .writeAt dataOffset { data with nEntries := data.nEntries + 1 }.encode
      pure header

/-- `append_global_entry_reference` of `ffi/journal.c:1145`. -/
def appendGlobalEntryReference :
    Program Errno JournalFileHeader := do
  let (header, newArray) ← appendEntryArray header entryOffset
  if uint32Max < newArray then .fail .fbig
  else if header.entryArrayOffset = 0 then
    pure { header with
      entryArrayOffset := newArray, tailEntryArrayOffset := newArray, tailEntryArrayNEntries := 1 }
  else if header.tailEntryArrayOffset = 0 then .fail .badmsg
  else do
    .writeAt (header.tailEntryArrayOffset + 16) (word newArray)
    pure { header with tailEntryArrayOffset := newArray, tailEntryArrayNEntries := 1 }

end

section

structure Identities where
  file : Id128
  machine : Id128
  boot : Id128

variable (ids : Identities) (header : JournalFileHeader)

/-- The header with which a file is begun. -/
def firstHeader : JournalFileHeader :=
  { fileId := ids.file.val, machineId := ids.machine.val, tailEntryBootId := ids.boot.val
    seqnumId := ids.file.val }

/-- A new file is created empty. -/
def createFile : Program Errno Unit := do
  let header := firstHeader ids
  allocateRange 0 journalHeaderSize
  headerWrite header
  let (header, dataTable) ←
    appendZeroObject header .dataHashTable (16 + dataHashTableBuckets * 16)
  let header := { header with
    dataHashTableOffset := dataTable + 16, dataHashTableSize := dataHashTableBuckets * 16 }
  let (header, fieldTable) ←
    appendZeroObject header .fieldHashTable (16 + fieldHashTableBuckets * 16)
  let header := { header with
    fieldHashTableOffset := fieldTable + 16, fieldHashTableSize := fieldHashTableBuckets * 16 }
  headerWrite header
  .call (pure ())

/-- An existing file is taken over, unless it is from another machine. -/
def reopenFile (machine : Option Id128) : Program Errno Unit := do
  let existing ← headerRead
  if machine.any (·.val != existing.machineId) then .fail .stale
  else markState stateOnline

/-- `rustd_journal_file_close` of `ffi/journal.c:1397`. -/
def rustdJournalFileClose : Program Errno Unit := do
  let header ← headerRead
  if header.state = stateOnline then do
    markState stateOffline
    .call (pure ())
  else .call (pure ())

structure Input where
  fields : List Field
  realtimeUsec : UInt64
  seqnum : UInt64
  monotonicUsec : UInt64
  bootId : Option Id128
  deriving DecidableEq

/-- The data of the fields, in order. -/
def appendDataObjects : JournalFileHeader → List Field →
    Program Errno (JournalFileHeader × List DataReference)
  | header, [] => pure (header, [])
  | header, field :: fields => do
    let (header, ref) ← appendDataObject header field
    let (header, refs) ← appendDataObjects header fields
    pure (header, ref :: refs)

/-- The number of an entry: the given one if it is higher than the last one. -/
def assignSeqnum (previous seqnum : Nat) : Nat :=
  if seqnum = 0 ∨ seqnum ≤ previous then (previous + 1) % 2 ^ 64 else seqnum

/-- Part of `rustd_journal_file_append`, `ffi/journal.c:1288`. -/
def writeItems (offset : Nat) : List DataReference → Program Errno Unit
  | [] => pure ()
  | ref :: refs => do
    .writeAt offset ({ objectOffset := ref.offset, hash := ref.hash } : EntryItem).encode
    writeItems (offset + 16) refs

/-- Part of `rustd_journal_file_append`, `ffi/journal.c:1288`. -/
def appendDataEntryReferences (entryOffset : Nat) : JournalFileHeader → List DataReference →
    Program Errno JournalFileHeader
  | header, [] => pure header
  | header, ref :: refs => do
    let header ← appendDataEntryReference header ref.offset entryOffset
    appendDataEntryReferences entryOffset header refs

/-- Part of `rustd_journal_file_append`, `ffi/journal.c:1288`. -/
def JournalFileHeader.addEntry (entry : EntryObject) (entryOffset : Nat) : JournalFileHeader :=
  { header with
    nEntries := header.nEntries + 1
    tailEntrySeqnum := entry.seqnum
    tailEntryRealtime := entry.realtime
    tailEntryMonotonic := entry.monotonic
    tailEntryOffset := entryOffset
    tailEntryBootId := entry.bootId.val
    headEntrySeqnum := if header.nEntries = 0 then entry.seqnum else header.headEntrySeqnum
    headEntryRealtime := if header.nEntries = 0 then entry.realtime else header.headEntryRealtime }

def JournalFileHeader.bootId : Id128 :=
  ⟨(header.tailEntryBootId ++ List.replicate 16 0).take 16, by simp⟩

/-- `rustd_journal_file_append` of `ffi/journal.c:1288`. -/
def rustdJournalFileAppend (input : Input) : Program Errno Unit := do
  let header ← headerRead
  if header.state ≠ stateOnline then .fail .busy
  else do
    memory (input.fields.length * 16)
    let (header, refs) ← appendDataObjects header input.fields
    let seqnum := assignSeqnum header.tailEntrySeqnum input.seqnum.toNat
    let size := entryBase + refs.length * 16
    if (uint64Max - entryBase) / 16 < input.fields.length then .fail .toobig
    else do
      let (header, entryOffset) ← appendZeroObject header .entry size
      let entry : EntryObject :=
        { object := ObjectType.entry.header size
          seqnum
          realtime := input.realtimeUsec.toNat
          monotonic := input.monotonicUsec.toNat
          bootId := input.bootId.getD header.bootId
          xorHash := refs.foldl (fun hash ref => hash ^^^ ref.hash) 0 }
      .writeAt entryOffset entry.encode
      writeItems (entryOffset + entryBase) refs
      let header ← appendDataEntryReferences entryOffset header refs
      let header ← appendGlobalEntryReference header entryOffset
      let header := header.addEntry entry entryOffset
      headerWrite header
      let used := header.headerSize + header.arenaSize
      if used ≤ int64Max then .truncate used (pure ()) else pure ()

end

end Rustd.JournalFile
