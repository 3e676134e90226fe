import Rustd.Journal.Entry

/-!
# Submission of journal entries by datagram

`rustd_journal_sendv` of `libs/journal/journal.c` and the receiver of `src/journal/receiver.rs`.
The sender writes every field as `KEY=value` and a newline, whatever the value holds. The
receiver also knows a binary form: the name on a line of its own, the length of the value and
the value.
-/

namespace Rustd.Journal

open Base

def newline : UInt8 := 10

def equals : UInt8 := 61

def underscore : UInt8 := 95

/-- `JOURNAL_RECV_BUF` of `src/ffi/journal.rs:12`. -/
def journalRecvBuf : Nat := 128 * 1024

section

inductive Errno where
  | inval
  | perm
  | nomem
  | other (code : Nat)
  deriving DecidableEq

/-- What the sender finds in the system: whether its buffer can hold so many bytes, and errors of
the socket. -/
structure SendSystem where
  allocates : Nat → Bool := fun _ => true
  connectError : Option Errno := none
  sendError : Option Errno := none

/-- Part of `rustd_journal_sendv`, `libs/journal/journal.c:61`. -/
def checkField (field : List UInt8) : Except Errno Unit :=
  let keyLen := (field.takeWhile (· != equals)).length
  if field = [] then .error .inval
  else if keyLen = 0 ∨ field.length ≤ keyLen then .error .inval
  else if field.head? = some underscore then .error .perm
  else .ok ()

/-- Part of `rustd_journal_sendv`, `libs/journal/journal.c:61`. -/
def appendFields (system : SendSystem) : List (List UInt8) → List UInt8 → Except Errno (List UInt8)
  | [], payload => .ok payload
  | field :: iov, payload =>
    match checkField field with
    | .error errno => .error errno
    | .ok () =>
      if system.allocates (payload.length + field.length + 1) then
        appendFields system iov (payload ++ field ++ [newline])
      else .error .nomem

/-- The datagram that a submission sends. -/
def rustdJournalSendv (system : SendSystem) (iov : List (List UInt8)) :
    Except Errno (List UInt8) :=
  if iov = [] then .error .inval
  else match appendFields system iov [] with
    | .error errno => .error errno
    | .ok payload => match system.connectError, system.sendError with
      | some errno, _ => .error errno
      | none, some errno => .error errno
      | none, none => .ok payload

end

section

structure Peer where
  pid : Nat
  uid : Nat
  gid : Nat
  deriving DecidableEq

inductive Stop where
  | dropped
  | panicked
  deriving DecidableEq

variable (bytes : List UInt8) (stamp : Stamp) (key : List UInt8) (peer : Option Peer)

def asciiUppercase : List UInt8 :=
  bytes.map (fun b => if 97 ≤ b ∧ b ≤ 122 then b - 32 else b)

def isNameByte (b : UInt8) : Bool := (65 ≤ b && b ≤ 90) || (48 ≤ b && b ≤ 57) || b == underscore

/-- `valid_field_name` of `src/journal/receiver.rs:255`. -/
def validFieldName : Bool :=
  match key with
  | [] => false
  | first :: _ => key.length ≤ 64 && !(48 ≤ first && first ≤ 57) && key.all isNameByte

/-- `std::str::from_utf8` accepts the bytes. -/
def isUtf8 : Bool := bytes.toByteArray.validateUTF8

/-- A received field joins the entry unless its name is not acceptable. -/
def acceptField (fields : Fields) (key value : List UInt8) : Fields :=
  if !validFieldName key then fields
  else if key.head? = some underscore then fields
  else fields.insert key value

/-- The loop of `parse_datagram_with_peer` from a position, with the bytes from there on. Every
turn takes at least one byte. -/
def parseFields : Nat → Nat → List UInt8 → Fields → Except Stop Fields
  | 0, _, _, fields => .ok fields
  | fuel + 1, pos, data, fields =>
    if data = [] then .ok fields
    else
      let line := data.takeWhile (· != newline)
      let rest := (data.dropWhile (· != newline)).drop 1
      let pos := pos + line.length + 1
      if line = [] then parseFields fuel pos rest fields
      else if line.contains equals then
        let key := line.takeWhile (· != equals)
        let value := (line.dropWhile (· != equals)).drop 1
        if !isUtf8 key then .error .dropped
        else parseFields fuel pos rest (acceptField fields (asciiUppercase key) value)
      else if !isUtf8 line then .error .dropped
      else if rest.length < 8 then .ok fields
      else
        let len := ofLittleEndian (rest.take 8)
        -- where `pos + len` wraps, the slice that follows it is out of range
        if 2 ^ 64 ≤ pos + 8 + len then .error .panicked
        else if (rest.drop 8).length < len then .ok fields
        else parseFields fuel (pos + 8 + len + 1) ((rest.drop 8).drop (len + 1))
          (acceptField fields (asciiUppercase line) ((rest.drop 8).take len))

/-- The fields that the receiver vouches for. -/
def addTrusted (fields : Fields) : Fields :=
  let fields := match peer with
    | some peer => ((fields.insert (ascii "_PID") (ascii (toString peer.pid))).insert
        (ascii "_UID") (ascii (toString peer.uid))).insert (ascii "_GID")
          (ascii (toString peer.gid))
    | none => fields
  fields.insert (ascii "_TRANSPORT") (ascii "journal")

/-- `parse_datagram_with_peer` of `src/journal/receiver.rs:185`. -/
def parseDatagramWithPeer (data : List UInt8) (peer : Option Peer) : Except Stop JournalEntry :=
  match parseFields data.length 0 data ∅ with
  | .error stop => .error stop
  | .ok fields =>
    if fields.isEmpty then .error .dropped
    else .ok (JournalEntry.new stamp (addTrusted peer fields))

/-- What is recorded of a datagram: the receive buffer holds so many bytes of it. -/
def receiveDatagram (datagram : List UInt8) : Except Stop JournalEntry :=
  parseDatagramWithPeer stamp (datagram.take journalRecvBuf) peer

end

end Rustd.Journal
