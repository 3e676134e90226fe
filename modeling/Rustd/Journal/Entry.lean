import Rustd.Base.Bytes
import Rustd.Base.RingBuffer

/-!
# Journal entries

Embedding of `src/journal/entry.rs`. Field names are kept as bytes: the names that the journal
accepts are ASCII.
-/

namespace Rustd.Journal

open Base

abbrev Fields := Std.ExtTreeMap (List UInt8) (List UInt8)

/-- What the creation of an entry reads from the system. -/
structure Stamp where
  realtimeUsec : Nat := 0
  seqnum : Nat := 1
  bootId : Option (List UInt8) := none
  deriving DecidableEq

/-- `JournalEntry` of `src/journal/entry.rs:68`. -/
structure JournalEntry where
  realtimeUsec : Nat
  seqnum : Nat
  fields : Fields

/-- The current boot is noted unless the entry says another one. -/
def stampBoot (bootId : Option (List UInt8)) (fields : Fields) : Fields :=
  if fields.contains (ascii "_BOOT_ID") then fields
  else match bootId with
    | some bootId => fields.insert (ascii "_BOOT_ID") bootId
    | none => fields

/-- `JournalEntry::new` of `src/journal/entry.rs:83`. -/
def JournalEntry.new (stamp : Stamp) (fields : Fields) : JournalEntry :=
  { realtimeUsec := stamp.realtimeUsec
    seqnum := stamp.seqnum
    fields := stampBoot stamp.bootId fields }

/-- The entries kept in memory, the oldest overwritten first. -/
abbrev EntryRing := RingBuffer JournalEntry

/-- The retained entries with a higher number, in the order in which they were pushed. -/
def EntryRing.drainSince (ring : EntryRing) (after : Nat) : List JournalEntry :=
  ring.ordered.filter (after < ·.seqnum)

/-- The ring after any pushes; it has room for one entry at least. -/
theorem ring_holds_last_pushed (capacity : Nat) (pushed : List JournalEntry) (after : Nat) :
    let ring : EntryRing := pushed.foldl RingBuffer.push (RingBuffer.new capacity)
    let last := pushed.drop (pushed.length - ring.capacity)
    ring.capacity = max capacity 1 ∧ last.length = min pushed.length ring.capacity ∧
      ring.entries.Perm last ∧ ring.drainSince after = last.filter (after < ·.seqnum) := by
  intro ring last
  have h : ring.Holds pushed := (RingBuffer.holds_new capacity).foldl pushed
  have hlen : last.length = pushed.length - (pushed.length - ring.capacity) := List.length_drop
  refine ⟨RingBuffer.capacity_foldl _ pushed, by omega, ?_, ?_⟩
  · exact h.ordered_perm.symm.trans (.of_eq h.ordered_eq)
  · rw [EntryRing.drainSince, h.ordered_eq]

end Rustd.Journal
