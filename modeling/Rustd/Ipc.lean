import Rustd.Base.Bytes

/-!
# Requests of the native IPC

`read_request_frame` of `src/ipc_server.rs`. A client's bytes arrive in pieces; after each read the
JSON decoder is asked whether what came so far is a request. The decoder is a parameter.
-/

namespace Rustd.Ipc

open Base List

/-- `FRAME_MAX` of `src/ipc.rs:46`. -/
def frameMax : Nat := 65536

/-- `IPC_READ_CHUNK` of `src/ipc_server.rs:32`. -/
def ipcReadChunk : Nat := 4096

/-- An error of the decoder, with `serde_json::Error::is_eof`. -/
structure DecodeError where
  text : String
  isEof : Bool
  deriving DecidableEq

/-- What one read of the socket can give. -/
inductive Arrival where
  | data (bytes : List UInt8)
  | interrupted
  | failed (error : String)
  deriving DecidableEq

variable {Request : Type}

structure FrameReader (Request : Type) where
  arrivals : List Arrival
  frame : List UInt8 := []
  result : Option (Except String Request) := none

variable (decodeRequest : List UInt8 → Except DecodeError Request)

/-- What the data of one read does to the call: a read takes no more bytes than there is room for,
and what it leaves is there for the next. -/
def takeData (r : FrameReader Request) (bytes : List UInt8) (later : List Arrival) :
    FrameReader Request :=
  let limit := min (frameMax - r.frame.length) ipcReadChunk
  let frame := r.frame ++ bytes.take limit
  let arrivals := if bytes.drop limit = [] then later else .data (bytes.drop limit) :: later
  match decodeRequest frame with
  | .ok request => ⟨arrivals, frame, some (.ok request)⟩
  | .error error =>
    if error.isEof then ⟨arrivals, frame, none⟩
    else ⟨arrivals, frame, some (.error s!"bad request: {error.text}")⟩

/-- One turn of the loop; it waits if nothing has arrived. -/
def readRequestFrame (r : FrameReader Request) : FrameReader Request :=
  if r.result.isSome then r
  else if r.frame.length = frameMax then
    { r with result := some (.error s!"request exceeds {frameMax}-byte frame limit") }
  else match r.arrivals with
    | [] => r
    | .interrupted :: later => { r with arrivals := later }
    | .failed error :: later =>
      { r with arrivals := later, result := some (.error s!"request read failed: {error}") }
    | .data [] :: later =>
      { r with
        arrivals := later
        result := some (.error "connection closed before a complete request") }
    | .data bytes :: later => takeData decodeRequest r bytes later

section

variable (r : FrameReader Request)

private theorem length_frame_takeData (bs : List UInt8) (l : List Arrival)
    (h : r.frame.length ≤ frameMax) :
    (takeData decodeRequest r bs l).frame.length ≤ frameMax := by
  have hfrm : (takeData decodeRequest r bs l).frame =
      r.frame ++ bs.take (min (frameMax - r.frame.length) ipcReadChunk) := by
    unfold takeData
    dsimp only
    split
    · rfl
    split
    · rfl
    · rfl
  rw [hfrm, length_append, length_take]
  omega

private theorem length_frame_readRequestFrame (h : r.frame.length ≤ frameMax) :
    (readRequestFrame decodeRequest r).frame.length ≤ frameMax := by
  unfold readRequestFrame
  split
  · exact h
  split
  · exact h
  split
  · exact h
  · exact h
  · exact h
  · exact h
  · exact length_frame_takeData decodeRequest r _ _ h

end

section

variable {decodeRequest}

/-- The decoder asks for more on a part of the request only. -/
structure Encodes (decodeRequest : List UInt8 → Except DecodeError Request)
    (encoding : List UInt8) (request : Request) : Prop where
  nonempty : encoding ≠ []
  decodes : decodeRequest encoding = .ok request
  eof : ∀ frame, frame <+: encoding → frame ≠ encoding →
    ∃ error, decodeRequest frame = .error error ∧ error.isEof = true

def Arrival.IsPiece : Arrival → Prop
  | .data bytes => bytes ≠ []
  | .interrupted => True
  | .failed _ => False

def Arrival.bytes : Arrival → List UInt8
  | .data bytes => bytes
  | _ => []

def weight (pieces : List Arrival) : Nat := (pieces.map fun piece => piece.bytes.length + 1).sum

/-- After some turns of the loop the call returns the request. -/
def Returns (decodeRequest : List UInt8 → Except DecodeError Request) (r : FrameReader Request)
    (request : Request) : Prop :=
  ∃ n, ((readRequestFrame decodeRequest)^[n] r).result = some (.ok request)

variable {request : Request}

theorem Returns.turn (h : Returns decodeRequest (readRequestFrame decodeRequest r) request) :
    Returns decodeRequest r request := by
  obtain ⟨n, hn⟩ := h
  exact ⟨n + 1, hn⟩

private theorem readRequestFrame_data (later : List Arrival)
    (hfrm : f.length < frameMax) (hbt : bs ≠ []) :
    readRequestFrame decodeRequest ⟨.data bs :: later, f, none⟩ =
      takeData decodeRequest ⟨.data bs :: later, f, none⟩ bs later := by
  cases bs with
  | nil => exact absurd rfl hbt
  | cons b bs =>
    rw [readRequestFrame, if_neg (by simp), if_neg (Nat.ne_of_lt hfrm)]

/-- A request that is partly there is returned once the rest has arrived. The induction is on what
is left to read: a piece may take several reads. -/
theorem returns_of_pieces {encoding : List UInt8}
    (h : Encodes decodeRequest encoding request) (hft : encoding.length ≤ frameMax)
    (l : List Arrival) (p : List Arrival) (f : List UInt8) (hp : ∀ pi ∈ p, pi.IsPiece)
    (hbt : f ++ p.flatMap Arrival.bytes = encoding) (hfrm : f ≠ encoding) :
    Returns decodeRequest ⟨p ++ l, f, none⟩ request := by
  induction hweight : weight p using Nat.strongRecOn generalizing p f with
  | ind k ih =>
  subst hweight
  have hrm : f.length < frameMax := by
    have hle : f.length ≤ encoding.length := by simp [← hbt]
    have hne : f.length ≠ encoding.length :=
      fun hln => hfrm (List.IsPrefix.eq_of_length ⟨_, hbt⟩ hln)
    omega
  cases p with
  | nil => exact absurd (by simpa using hbt) hfrm
  | cons pi p =>
  obtain ⟨hpc, hos⟩ := forall_mem_cons.mp hp
  apply Returns.turn
  cases pi with
  | failed err => exact hpc.elim
  | interrupted =>
    have htrn : readRequestFrame decodeRequest ⟨.interrupted :: p ++ l, f, none⟩ =
        ⟨p ++ l, f, none⟩ := by
      rw [readRequestFrame, if_neg (by simp), if_neg (Nat.ne_of_lt hrm)]
      rfl
    rw [htrn]
    exact ih _ (by simp [weight]) p f hos hbt hfrm rfl
  | data bs =>
    rw [cons_append, readRequestFrame_data _ hrm hpc, takeData]
    dsimp only
    have hlm : 0 < min (frameMax - f.length) ipcReadChunk := by
      have hch : 0 < ipcReadChunk := by decide
      omega
    generalize min (frameMax - f.length) ipcReadChunk = limit at hlm
    have hwh : f ++ bs.take limit ++ (bs.drop limit ++
        p.flatMap Arrival.bytes) = encoding := by
      rw [← hbt, append_assoc, ← append_assoc (bs.take limit), take_append_drop]
      rfl
    by_cases hdn : f ++ bs.take limit = encoding
    · rw [hdn, h.decodes]
      exact ⟨0, rfl⟩
    obtain ⟨err, herr, heof⟩ := h.eof _ ⟨_, hwh⟩ hdn
    simp only [herr, heof, if_true]
    have hsh : (bs.drop limit).length < bs.length := by
      have hpos := length_pos_of_ne_nil hpc
      rw [length_drop]
      omega
    split
    · next hrest =>
      rw [hrest, nil_append] at hwh
      exact ih _ (by simp [weight]) p _ hos hwh hdn rfl
    · next hrest =>
      refine ih _ ?_ (.data (bs.drop limit) :: p) _ ?_ hwh hdn rfl
      · simp only [weight, Arrival.bytes, map_cons, sum_cons]
        omega
      · exact forall_mem_cons.mpr ⟨hrest, hos⟩

/-- However the bytes of a request that fits into a frame are cut into pieces, and whatever comes
after them, the call returns the request; and no call ever holds more than a frame. -/
theorem request_returned_however_cut (encoding : List UInt8) (request : Request)
    (hencodes : Encodes decodeRequest encoding request) (hfits : encoding.length ≤ frameMax)
    (pieces later : List Arrival) (hpieces : ∀ piece ∈ pieces, piece.IsPiece)
    (hbytes : pieces.flatMap Arrival.bytes = encoding) :
    Returns decodeRequest ⟨pieces ++ later, [], none⟩ request ∧
      ∀ arrivals n, ((readRequestFrame decodeRequest)^[n] ⟨arrivals, [], none⟩).frame.length ≤
        frameMax := by
  refine ⟨returns_of_pieces hencodes hfits later pieces [] hpieces hbytes
    hencodes.nonempty.symm, fun arrivals n => ?_⟩
  have hin : ∀ r : FrameReader Request, r.frame.length ≤ frameMax →
      ((readRequestFrame decodeRequest)^[n] r).frame.length ≤ frameMax := by
    induction n with
    | zero => exact fun r hr => hr
    | succ n ih => exact fun r hr => ih _ (length_frame_readRequestFrame decodeRequest r hr)
  exact hin _ (Nat.zero_le _)

/-- The bytes of the request for the list of the units. -/
def listUnits : List UInt8 := ascii "\x7b\"cmd\":\"list-units\"\x7d"

def decodeListUnits (frame : List UInt8) : Except DecodeError Unit :=
  if frame = listUnits then .ok () else .error ⟨"", decide (frame.length < listUnits.length)⟩

theorem list_units_returned_however_cut :
    Returns decodeListUnits
      ⟨[.data (listUnits.take 7), .interrupted, .data (listUnits.drop 7)], [], none⟩ () := by
  have hen : Encodes decodeListUnits listUnits () := by
    refine ⟨by decide, rfl, fun f hpr hfrm => ⟨_, if_neg hfrm, ?_⟩⟩
    have hne : f.length ≠ listUnits.length := fun h => hfrm (hpr.eq_of_length h)
    exact decide_eq_true (Nat.lt_of_le_of_ne hpr.length_le hne)
  exact (request_returned_however_cut listUnits () hen (by decide)
    [.data (listUnits.take 7), .interrupted, .data (listUnits.drop 7)] []
    (by simp [Arrival.IsPiece, listUnits, ascii]) rfl).1

end

end Rustd.Ipc
