import Rustd.Base.Run
import Rustd.Journal.Entry

/-!
# The journal sink

Embedding of `src/journal/sink.rs`, where the socket handlers hand over their entries. A call of
`record` takes several locks one after the other, so a system is a number of calls that take turns
at their steps, and a consumer that reads the entries kept in memory.

A failed append records its failure while it still holds the lock of the writer; a check of the
failure between the two comes to the same as one before both, so they are one step.
-/

namespace Rustd.Journal

open Base List

/-- The durable journal of a sink: never there, in use, or closed by `shutdown`. -/
inductive Writer where
  | absent
  | opened
  | closed
  deriving DecidableEq

/-- `JournalSink` of `src/journal/sink.rs:15`. -/
structure JournalSink where
  ring : EntryRing
  writer : Writer
  failure : Option String := none

variable (ring : EntryRing)

/-- `JournalSink::in_memory` of `src/journal/sink.rs:24`. -/
def JournalSink.inMemory : JournalSink := { ring := ring, writer := .absent }

/-- `JournalSink::with_writer` of `src/journal/sink.rs:34`. -/
def JournalSink.withWriter : JournalSink := { ring := ring, writer := .opened }

/-- Only the first failure is kept. -/
def JournalSink.recordFailure (sink : JournalSink) (text : String) : JournalSink :=
  { sink with failure := some (sink.failure.getD text) }

inductive AppendAnswer where
  | ok
  | error (text : String)
  | poisoned
  deriving DecidableEq

/-- How far a call of `record` has come. -/
inductive Phase where
  | created
  | checked
  | persisted
  | returned
  deriving DecidableEq

/-- A call of `record` with the entry it was given. -/
structure Call where
  number : Nat
  entry : JournalEntry

/-- The sink with the calls of all producers, the entries in the order in which they reached the
durable journal and the ring, and what a consumer received. `seq` is the counter of
`src/journal/entry.rs:28`. -/
structure System where
  seq : Nat := 1
  sink : JournalSink
  calls : List (JournalEntry × Phase) := []
  appended : List Call := []
  pushed : List Call := []
  received : List JournalEntry := []

namespace System

variable (s : System) (c : Nat) (entry : JournalEntry)

def enter (phase : Phase) : System :=
  { s with calls := s.calls.set c (entry, phase) }

/-- Part of `JournalSink::record_failure`, `src/journal/sink.rs:96`. -/
def fail (text : String) : System :=
  { s.enter c entry .returned with sink := s.sink.recordFailure text }

/-- An entry is created with the next number of the process. -/
def create (realtimeUsec : Nat) (bootId : Option (List UInt8)) (fields : Fields) : System :=
  { s with
    seq := (s.seq + 1) % 2 ^ 64
    calls := s.calls ++ [(JournalEntry.new ⟨realtimeUsec, s.seq, bootId⟩ fields, .created)] }

/-- Nothing more is accepted once a failure was recorded. -/
def check : System :=
  match s.calls[c]? with
  | some (entry, .created) =>
    if s.sink.failure.isSome then s.enter c entry .returned else s.enter c entry .checked
  | _ => s

/-- Part of `JournalSink::record`, `src/journal/sink.rs:47`. -/
def append (answer : AppendAnswer) : System :=
  match s.calls[c]? with
  | some (entry, .checked) =>
    match s.sink.writer, answer with
    | .absent, _ => s.enter c entry .persisted
    | _, .poisoned => s.fail c entry "journal writer lock poisoned"
    | .closed, _ => s.fail c entry "journal writer is already closed"
    | .opened, .error text => s.fail c entry text
    | .opened, .ok => { s.enter c entry .persisted with appended := s.appended ++ [⟨c, entry⟩] }
  | _ => s

def pushEntry : System :=
  { s.enter c entry .returned with
    sink := { s.sink with ring := s.sink.ring.push entry }
    pushed := s.pushed ++ [⟨c, entry⟩] }

/-- Part of `JournalSink::record`, `src/journal/sink.rs:47`. -/
def push (poisoned : Bool) : System :=
  match s.calls[c]? with
  | some (entry, .persisted) =>
    if poisoned then s.fail c entry "journal ring lock poisoned" else s.pushEntry c entry
  | _ => s

/-- `JournalSink::shutdown` of `src/journal/sink.rs:83`. -/
def shutdown : System :=
  match s.sink.writer with
  | .opened => { s with sink := { s.sink with writer := .closed } }
  | _ => s

def lastSeen : Nat := (s.received.getLast?.map (·.seqnum)).getD 0

def pending : List JournalEntry := s.sink.ring.drainSince s.lastSeen

/-- Part of `EntryRing::drain_since`, `src/journal/entry.rs:190`. -/
def drain : System := { s with received := s.received ++ s.pending }

/-- Part of `JournalSink::record`, `src/journal/sink.rs:47`. -/
inductive Step where
  | create (realtimeUsec : Nat) (bootId : Option (List UInt8)) (fields : Fields)
  | check (c : Nat)
  | append (c : Nat) (answer : AppendAnswer)
  | push (c : Nat) (poisoned : Bool)
  | drain
  | shutdown

/-- Part of `JournalSink::record`, `src/journal/sink.rs:47`. -/
def step : Step → System
  | .create realtimeUsec bootId fields => s.create realtimeUsec bootId fields
  | .check c => s.check c
  | .append c answer => s.append c answer
  | .push c poisoned => s.push c poisoned
  | .drain => s.drain
  | .shutdown => s.shutdown

/-- The durable and the in-memory journal agree, and the consumer is served: the ring was filled in
the order of the appends and of the numbers; with what it would get now, the consumer has every
entry that the ring still holds, and each one once. -/
structure OrderAgrees (s : System) : Prop where
  durable : s.sink.writer ≠ .absent → s.pushed.Sublist s.appended
  increasing : s.pushed.Pairwise (fun c d => c.entry.seqnum < d.entry.seqnum)
  delivered : ∀ entry ∈ s.sink.ring.ordered, entry ∈ s.received ++ s.pending
  once : (s.received ++ s.pending).Pairwise (fun e f => e.seqnum < f.seqnum)

/-- A step after which durable and in-memory order agree, and which accepts nothing if a failure
was recorded before. -/
def KeepsOrder (e : Step) : Prop :=
  (s.sink.failure ≠ none →
    (s.step e).appended = s.appended ∧ (s.step e).pushed = s.pushed) ∧ OrderAgrees (s.step e)

/-- Calls append while no failure is recorded, and they push while none is recorded and after the
entries that have a lower number and were appended before theirs, and no others. -/
def InTurn : Step → Prop
  | .append c .ok => ∀ entry, s.calls[c]? = some (entry, .checked) → s.sink.writer = .opened →
      s.sink.failure = none
  | .push c false => ∀ entry, s.calls[c]? = some (entry, .persisted) →
      s.sink.failure = none ∧ 0 < entry.seqnum ∧ ∀ d ∈ s.pushed, d.entry.seqnum < entry.seqnum ∧
        (s.sink.writer ≠ .absent → [d, ⟨c, entry⟩].Sublist s.appended)
  | _ => True

structure Tracked (s : System) : Prop where
  nodup : s.appended.Nodup
  taken : ∀ d ∈ s.appended, s.calls[d.number]? = some (d.entry, .persisted) ∨
    s.calls[d.number]? = some (d.entry, .returned)
  persisted : s.sink.writer ≠ .absent → ∀ c entry, s.calls[c]? = some (entry, .persisted) →
    ⟨c, entry⟩ ∈ s.appended
  holds : s.sink.ring.Holds (s.pushed.map (·.entry))
  received : ∀ entry ∈ s.received, entry ∈ s.pushed.map (·.entry) ∧ 0 < entry.seqnum

section

variable {s : System} {c : Nat} {entry : JournalEntry} {phase p' : Phase}

private theorem getElem?_enter (h : s.calls[c]? = some (entry, p')) (d : Nat) :
    (s.enter c entry phase).calls[d]? = if d = c then some (entry, phase) else s.calls[d]? := by
  have hbn : c < s.calls.length := (List.getElem?_eq_some_iff.mp h).1
  show (s.calls.set c (entry, phase))[d]? = _
  rw [getElem?_set]
  by_cases hd : c = d
  · rw [if_pos hd, if_pos hbn, if_pos hd.symm]
  · rw [if_neg hd, if_neg (Ne.symm hd)]

theorem Tracked.enter (h : Tracked s) (hcl : s.calls[c]? = some (entry, p'))
    (hp : phase = .persisted → s.sink.writer ≠ .absent → ⟨c, entry⟩ ∈ s.appended)
    (htk : ⟨c, entry⟩ ∈ s.appended → phase = .persisted ∨ phase = .returned) :
    Tracked (s.enter c entry phase) where
  nodup := h.nodup
  taken := by
    intro d hd
    rw [getElem?_enter hcl]
    split
    · next hc =>
      have hent : d.entry = entry := by
        rcases h.taken d hd with hdc | hdc <;>
        · rw [hc, hcl] at hdc
          exact (congrArg Prod.fst (Option.some.inj hdc)).symm
      have hmem : (⟨c, entry⟩ : Call) ∈ s.appended := by
        rw [← hc, ← hent]
        exact hd
      rw [hent]
      rcases htk hmem with rfl | rfl
      · exact .inl rfl
      · exact .inr rfl
    · exact h.taken d hd
  persisted := by
    intro hwr d v hother
    rw [getElem?_enter hcl] at hother
    split at hother
    · next hc =>
      obtain ⟨rfl, rfl⟩ := Prod.mk.inj (Option.some.inj hother)
      rw [hc]
      exact hp rfl hwr
    · exact h.persisted hwr d v hother
  holds := h.holds
  received := h.received

theorem Tracked.fail (h : Tracked s) (hcl : s.calls[c]? = some (entry, p')) (t : String) :
    Tracked (s.fail c entry t) :=
  have hrtr : Tracked (s.enter c entry .returned) :=
    h.enter hcl (fun hph => nomatch hph) (fun _ => .inr rfl)
  ⟨hrtr.nodup, hrtr.taken, hrtr.persisted, hrtr.holds, hrtr.received⟩

private theorem Tracked.not_mem_appended (h : Tracked s) (hcl : s.calls[c]? = some (entry, phase))
    (hph : phase = .created ∨ phase = .checked) : ⟨c, entry⟩ ∉ s.appended := by
  intro hmem
  rcases hph with rfl | rfl <;> rcases h.taken _ hmem with htk | htk <;>
    exact nomatch hcl.symm.trans htk

theorem Tracked.create (h : Tracked s) (r : Nat) (b : Option (List UInt8))
    (fs : Fields) : Tracked (s.create r b fs) where
  nodup := h.nodup
  taken := by
    intro d hd
    have hbn : d.number < s.calls.length := by
      rcases h.taken d hd with htk | htk <;>
        exact (List.getElem?_eq_some_iff.mp htk).1
    show (s.calls ++ _)[d.number]? = _ ∨ (s.calls ++ _)[d.number]? = _
    rw [getElem?_append_left hbn]
    exact h.taken d hd
  persisted := by
    intro hwr d v hother
    change (s.calls ++ [_])[d]? = some (v, .persisted) at hother
    by_cases hd : d < s.calls.length
    · rw [getElem?_append_left hd] at hother
      exact h.persisted hwr d v hother
    · rw [getElem?_append_right (Nat.le_of_not_lt hd), getElem?_singleton] at hother
      split at hother <;> cases hother
  holds := h.holds
  received := h.received

theorem Tracked.check (h : Tracked s) (c : Nat) : Tracked (s.check c) := by
  unfold System.check
  split
  · next entry hcl =>
    have hnew := h.not_mem_appended hcl (.inl rfl)
    split
    · exact h.enter hcl (fun hph => nomatch hph) (fun hmem => absurd hmem hnew)
    · exact h.enter hcl (fun hph => nomatch hph) (fun hmem => absurd hmem hnew)
  · exact h

private theorem Tracked.persist (h : Tracked s) (hcl : s.calls[c]? = some (entry, .checked)) :
    Tracked { s.enter c entry .persisted with appended := s.appended ++ [⟨c, entry⟩] } where
  nodup := nodup_append.mpr ⟨h.nodup, pairwise_singleton _ _, by
    intro d hd d' hd' heq
    rw [mem_singleton.mp hd'] at heq
    exact h.not_mem_appended hcl (.inr rfl) (heq ▸ hd)⟩
  taken := by
    intro d hd
    show (s.enter c entry .persisted).calls[d.number]? = _ ∨
      (s.enter c entry .persisted).calls[d.number]? = _
    rw [getElem?_enter hcl]
    rcases mem_append.mp hd with hold | hnew
    · have hne : d.number ≠ c := by
        intro heq
        rcases h.taken d hold with htk | htk <;>
        · rw [heq, hcl] at htk
          cases htk
      rw [if_neg hne]
      exact h.taken d hold
    · rw [mem_singleton.mp hnew]
      exact .inl (if_pos rfl)
  persisted := by
    intro hwr d v hother
    change (s.enter c entry .persisted).calls[d]? = _ at hother
    rw [getElem?_enter hcl] at hother
    split at hother
    · next hd =>
      obtain ⟨rfl, -⟩ := Prod.mk.inj (Option.some.inj hother)
      rw [hd]
      exact mem_append_right _ (mem_singleton_self _)
    · exact mem_append_left _ (h.persisted hwr d v hother)
  holds := h.holds
  received := h.received

theorem Tracked.append (h : Tracked s) (c : Nat) (a : AppendAnswer) : Tracked (s.append c a) := by
  unfold System.append
  split
  · next entry hcl =>
    have hnew := h.not_mem_appended hcl (.inr rfl)
    split
    · next hab =>
      exact h.enter hcl (fun _ hwr => absurd hab hwr) (fun _ => .inl rfl)
    · exact h.fail hcl _
    · exact h.fail hcl _
    · exact h.fail hcl _
    · exact h.persist hcl
  · exact h

private theorem Tracked.pushEntry (h : Tracked s) (hcl : s.calls[c]? = some (entry, phase)) :
    Tracked (s.pushEntry c entry) := by
  have hrtr : Tracked (s.enter c entry .returned) :=
    h.enter hcl (fun hph => nomatch hph) (fun _ => .inr rfl)
  refine ⟨hrtr.nodup, hrtr.taken, hrtr.persisted, ?_, ?_⟩
  · show (s.sink.ring.push entry).Holds (List.map Call.entry (s.pushed ++ [⟨c, entry⟩]))
    rw [map_append]
    exact h.holds.push entry
  intro e he
  obtain ⟨hmem, hpv⟩ := h.received e he
  refine ⟨?_, hpv⟩
  show e ∈ List.map Call.entry (s.pushed ++ [⟨c, entry⟩])
  rw [map_append]
  exact mem_append_left _ hmem

theorem Tracked.push (h : Tracked s) (c : Nat) (p : Bool) : Tracked (s.push c p) := by
  unfold System.push
  split
  · next entry hcl =>
    split
    · exact h.fail hcl _
    · exact h.pushEntry hcl
  · exact h

variable {e : JournalEntry}

theorem mem_pending : e ∈ s.pending ↔ e ∈ s.sink.ring.ordered ∧ s.lastSeen < e.seqnum := by
  simp [pending, EntryRing.drainSince]

private theorem Tracked.mem_pushed (h : Tracked s) (he : e ∈ s.sink.ring.ordered) :
    e ∈ s.pushed.map (·.entry) := by
  rw [h.holds.ordered_eq] at he
  exact mem_of_mem_drop he

theorem Tracked.drain (h : Tracked s) : Tracked s.drain where
  nodup := h.nodup
  taken := h.taken
  persisted := h.persisted
  holds := h.holds
  received := by
    intro e he
    rcases mem_append.mp he with hold | hnew
    · exact h.received e hold
    · obtain ⟨hmem, hse⟩ := mem_pending.mp hnew
      exact ⟨h.mem_pushed hmem, Nat.zero_lt_of_lt hse⟩

theorem Tracked.shutdown (h : Tracked s) : Tracked s.shutdown := by
  unfold System.shutdown
  split
  · next hopn =>
    refine ⟨h.nodup, h.taken, ?_, h.holds, h.received⟩
    intro _
    exact h.persisted (by rw [hopn]; exact nofun)
  · exact h

theorem Tracked.step (h : Tracked s) (e : Step) : Tracked (s.step e) := by
  cases e with
  | create r b f => exact h.create r b f
  | check c => exact h.check c
  | append c a => exact h.append c a
  | push c p => exact h.push c p
  | drain => exact h.drain
  | shutdown => exact h.shutdown

end

section

variable {s s' : System} {c : Nat} {entry : JournalEntry}

structure Quiet (s s' : System) : Prop where
  writer : s'.sink.writer ≠ .absent → s.sink.writer ≠ .absent
  ring : s'.sink.ring = s.sink.ring
  appended : s'.appended = s.appended
  pushed : s'.pushed = s.pushed
  received : s'.received = s.received

theorem Quiet.refl (s : System) : Quiet s s := ⟨id, rfl, rfl, rfl, rfl⟩

theorem Quiet.pending (h : Quiet s s') : s'.pending = s.pending := by
  rw [System.pending, System.pending, lastSeen, lastSeen, h.ring, h.received]

private theorem Quiet.orderAgrees (h : Quiet s s') (hs : OrderAgrees s) : OrderAgrees s' where
  durable := by
    rw [h.pushed, h.appended]
    exact fun hwr => hs.durable (h.writer hwr)
  increasing := by
    rw [h.pushed]
    exact hs.increasing
  delivered := by
    rw [h.ring, h.received, h.pending]
    exact hs.delivered
  once := by
    rw [h.received, h.pending]
    exact hs.once

private theorem quiet_enter (s : System) (c : Nat) (entry : JournalEntry) (phase : Phase) :
    Quiet s (s.enter c entry phase) := ⟨id, rfl, rfl, rfl, rfl⟩

private theorem quiet_fail (s : System) (c : Nat) (entry : JournalEntry) (t : String) :
    Quiet s (s.fail c entry t) := ⟨id, rfl, rfl, rfl, rfl⟩

private theorem quiet_create (s : System) (r : Nat) (b : Option (List UInt8))
    (fs : Fields) : Quiet s (s.create r b fs) := ⟨id, rfl, rfl, rfl, rfl⟩

private theorem quiet_check (s : System) (c : Nat) : Quiet s (s.check c) := by
  unfold check
  split
  · split
    · exact quiet_enter s c _ _
    · exact quiet_enter s c _ _
  · exact Quiet.refl s

private theorem quiet_shutdown (s : System) : Quiet s s.shutdown := by
  unfold shutdown
  split
  · next hopn => exact ⟨fun _ => by rw [hopn]; exact nofun, rfl, rfl, rfl, rfl⟩
  · exact Quiet.refl s

private theorem lastSeen_lt (h : Tracked s) (hpv : 0 < entry.seqnum)
    (hla : ∀ d ∈ s.pushed, d.entry.seqnum < entry.seqnum) : s.lastSeen < entry.seqnum := by
  unfold lastSeen
  cases hls : s.received.getLast? with
  | none => exact hpv
  | some e =>
    obtain ⟨hmem, -⟩ := h.received e (mem_of_getLast? hls)
    obtain ⟨d, hd, rfl⟩ := List.mem_map.mp hmem
    exact hla d hd

variable {e : JournalEntry}

private theorem received_le_lastSeen (hig : s.received.Pairwise (fun e f => e.seqnum < f.seqnum))
    (he : e ∈ s.received) : e.seqnum ≤ s.lastSeen := by
  unfold lastSeen
  cases hls : s.received.getLast? with
  | none =>
    rw [getLast?_eq_none_iff.mp hls] at he
    exact absurd he not_mem_nil
  | some l =>
    obtain ⟨ea, heq⟩ := getLast?_eq_some_iff.mp hls
    rw [heq] at he hig
    rcases mem_append.mp he with hea | hsa
    · exact Nat.le_of_lt ((pairwise_append.mp hig).2.2 e hea l (mem_singleton_self l))
    · rw [mem_singleton.mp hsa]
      exact Nat.le_refl _

/-- In a list without duplicates, an element comes after all of a sublist exactly when it comes
after each of its elements. -/
theorem concat_sublist_iff {α : Type} {l p : List α} {x : α} (hnp : l.Nodup)
    (hp : p.Sublist l) (hx : x ∈ l) : (p ++ [x]).Sublist l ↔ ∀ d ∈ p, [d, x].Sublist l := by
  constructor
  · intro h d hd
    exact ((singleton_sublist.mpr hd).append (List.Sublist.refl [x])).trans h
  intro h
  obtain ⟨before, after, rfl⟩ := append_of_mem hx
  obtain ⟨-, hrest, hap⟩ := nodup_append.mp hnp
  have hbf : ∀ d ∈ p, d ∈ before := by
    intro d hd
    obtain ⟨l₁, l₂, heq, hl₁, hl₂⟩ := sublist_append_iff.mp (h d hd)
    cases l₁ with
    | nil =>
      -- both would come from `x` on, where `x` comes first and only once
      rw [nil_append] at heq
      rw [← heq] at hl₂
      have hx' : x ∈ after := by
        rcases cons_sublist_cons'.mp hl₂ with hla | ⟨-, hla⟩
        · exact hla.subset (mem_cons_of_mem _ (mem_singleton_self x))
        · exact hla.subset (mem_singleton_self x)
      exact absurd hx' (nodup_cons.mp hrest).1
    | cons d' l₁ =>
      rw [cons_append] at heq
      rw [(List.cons.inj heq).1]
      exact hl₁.subset mem_cons_self
  obtain ⟨p₁, p₂, rfl, hp₁, hp₂⟩ := sublist_append_iff.mp hp
  cases p₂ with
  | nil =>
    rw [append_nil]
    exact hp₁.append (singleton_sublist.mpr mem_cons_self)
  | cons d p₂ =>
    have hd : d ∈ before := hbf d (mem_append_right _ mem_cons_self)
    exact absurd rfl (hap d hd d (hp₂.subset mem_cons_self))

private theorem delivered_pushEntry (h : Tracked s) (hs : OrderAgrees s)
    (hla : s.lastSeen < entry.seqnum) (he : e ∈ (s.pushEntry c entry).sink.ring.ordered) :
    e ∈ (s.pushEntry c entry).received ++ (s.pushEntry c entry).pending := by
  obtain ⟨k, hkp, hri⟩ := h.holds.ordered_push entry
  have hmem := he
  change e ∈ (s.sink.ring.push entry).ordered at hmem
  rw [hri] at hmem
  rcases mem_append.mp hmem with hold | hnew
  · rcases mem_append.mp (hs.delivered e (hkp.subset hold)) with hrcv | hpn
    · exact mem_append_left _ hrcv
    · exact mem_append_right _ (mem_pending.mpr ⟨he, (mem_pending.mp hpn).2⟩)
  · rw [mem_singleton.mp hnew] at he ⊢
    exact mem_append_right _ (mem_pending.mpr ⟨he, hla⟩)

theorem Tracked.once (h : Tracked s)
    (hig : s.pushed.Pairwise (fun c d => c.entry.seqnum < d.entry.seqnum))
    (hrcv : s.received.Pairwise (fun e f => e.seqnum < f.seqnum)) :
    (s.received ++ s.pending).Pairwise (fun e f => e.seqnum < f.seqnum) := by
  have hri : s.sink.ring.ordered.Pairwise (fun e f => e.seqnum < f.seqnum) := by
    rw [h.holds.ordered_eq]
    refine List.Pairwise.sublist (drop_sublist _ _) ?_
    rw [pairwise_map]
    exact hig
  refine pairwise_append.mpr ⟨hrcv, hri.sublist filter_sublist, ?_⟩
  intro e he f hf
  exact Nat.lt_of_le_of_lt (received_le_lastSeen hrcv he) (mem_pending.mp hf).2

private theorem orderAgrees_pushEntry_iff (h : Tracked s) (hs : OrderAgrees s)
    (hcl : s.calls[c]? = some (entry, .persisted)) :
    OrderAgrees (s.pushEntry c entry) ↔
      0 < entry.seqnum ∧ ∀ d ∈ s.pushed, d.entry.seqnum < entry.seqnum ∧
        (s.sink.writer ≠ .absent → [d, ⟨c, entry⟩].Sublist s.appended) := by
  have hsu (hwr : s.sink.writer ≠ .absent) :=
    concat_sublist_iff h.nodup (hs.durable hwr) (h.persisted hwr c entry hcl)
  constructor
  · intro h'
    refine ⟨?_, fun d hd => ⟨?_, fun hwr => (hsu hwr).mp (h'.durable hwr) d hd⟩⟩
    · obtain ⟨k, -, hri⟩ := h.holds.ordered_push entry
      have hmem : entry ∈ (s.sink.ring.push entry).ordered := by
        rw [hri]
        exact mem_append_right _ (mem_singleton_self entry)
      rcases mem_append.mp (h'.delivered entry hmem) with hrcv | hpn
      · exact (h.received entry hrcv).2
      · exact Nat.zero_lt_of_lt (mem_pending.mp hpn).2
    · exact (pairwise_append.mp h'.increasing).2.2 d hd _ (mem_singleton_self _)
  · rintro ⟨hpv, htrn⟩
    have hla := lastSeen_lt h hpv (fun d hd => (htrn d hd).1)
    have hig : (s.pushEntry c entry).pushed.Pairwise
        (fun c d => c.entry.seqnum < d.entry.seqnum) := by
      refine pairwise_append.mpr ⟨hs.increasing, pairwise_singleton _ _, ?_⟩
      intro d hd d' hd'
      rw [mem_singleton.mp hd']
      exact (htrn d hd).1
    constructor
    · intro hwr
      exact (hsu hwr).mpr (fun d hd => (htrn d hd).2 hwr)
    · exact hig
    · exact fun e he => delivered_pushEntry h hs hla he
    · exact (h.pushEntry hcl).once hig (pairwise_append.mp hs.once).1

private theorem orderAgrees_drain (h : Tracked s) (hs : OrderAgrees s) : OrderAgrees s.drain := by
  constructor
  · exact hs.durable
  · exact hs.increasing
  · exact fun e he => mem_append_left _ (hs.delivered e he)
  · exact h.drain.once hs.increasing hs.once

private theorem orderAgrees_persist (hs : OrderAgrees s) (c : Nat) (entry : JournalEntry) :
    OrderAgrees { s.enter c entry .persisted with appended := s.appended ++ [⟨c, entry⟩] } where
  durable := fun hwr => (hs.durable hwr).trans (sublist_append_left _ _)
  increasing := hs.increasing
  delivered := hs.delivered
  once := hs.once

private theorem Quiet.keepsOrder {e : Step} (h : Quiet s (s.step e)) (hs : OrderAgrees s) :
    KeepsOrder s e :=
  ⟨fun _ => ⟨h.appended, h.pushed⟩, h.orderAgrees hs⟩

private theorem keepsOrder_append_iff (hs : OrderAgrees s) (c : Nat) (a : AppendAnswer) :
    KeepsOrder s (.append c a) ↔ InTurn s (.append c a) := by
  by_cases hac : a = .ok ∧ s.sink.writer = .opened ∧ ∃ entry, s.calls[c]? = some (entry, .checked)
  · obtain ⟨rfl, hwr, entry, hcl⟩ := hac
    have hsp : s.step (.append c .ok) =
        { s.enter c entry .persisted with appended := s.appended ++ [⟨c, entry⟩] } := by
      simp only [step, append, hcl, hwr]
    constructor
    · rintro ⟨hnn, -⟩ _ _ _
      by_contra h
      have hsa := (hnn h).1
      rw [hsp] at hsa
      exact cons_ne_nil _ _ (append_right_eq_self.mp hsa)
    · intro htrn
      refine ⟨fun h => absurd (htrn entry hcl hwr) h, ?_⟩
      rw [hsp]
      exact orderAgrees_persist hs c entry
  · have hqt : Quiet s (s.step (.append c a)) := by
      show Quiet s (s.append c a)
      unfold append
      split
      · next entry hcl =>
        split
        · exact quiet_enter s c entry _
        · exact quiet_fail s c entry _
        · exact quiet_fail s c entry _
        · exact quiet_fail s c entry _
        · next hwr => exact absurd ⟨rfl, hwr, entry, hcl⟩ hac
      · exact Quiet.refl s
    refine iff_of_true (hqt.keepsOrder hs) ?_
    cases a with
    | ok => exact fun entry hcl hwr => absurd ⟨rfl, hwr, entry, hcl⟩ hac
    | error t => trivial
    | poisoned => trivial

private theorem keepsOrder_push_iff (h : Tracked s) (hs : OrderAgrees s) (c : Nat) (p : Bool) :
    KeepsOrder s (.push c p) ↔ InTurn s (.push c p) := by
  by_cases hac : p = false ∧ ∃ entry, s.calls[c]? = some (entry, .persisted)
  · obtain ⟨rfl, entry, hcl⟩ := hac
    have hsp : s.step (.push c false) = s.pushEntry c entry := by
      simp only [step, push, hcl, Bool.false_eq_true, if_false]
    have hiff := orderAgrees_pushEntry_iff h hs hcl
    constructor
    · rintro ⟨hnn, hord⟩ entry' hcl'
      obtain ⟨rfl, -⟩ := Prod.mk.inj (Option.some.inj (hcl.symm.trans hcl'))
      rw [hsp] at hnn hord
      refine ⟨?_, hiff.mp hord⟩
      by_contra hf
      exact cons_ne_nil _ _ (append_right_eq_self.mp (hnn hf).2)
    · intro htrn
      obtain ⟨hf, hord⟩ := htrn entry hcl
      refine ⟨fun hfa => absurd hf hfa, ?_⟩
      rw [hsp]
      exact hiff.mpr hord
  · have hqt : Quiet s (s.step (.push c p)) := by
      show Quiet s (s.push c p)
      unfold push
      split
      · next entry hcl =>
        split
        · exact quiet_fail s c entry _
        · next hpo =>
          exact absurd ⟨Bool.eq_false_iff.mpr hpo, entry, hcl⟩ hac
      · exact Quiet.refl s
    refine iff_of_true (hqt.keepsOrder hs) ?_
    cases p with
    | false => exact fun entry hcl => absurd ⟨rfl, entry, hcl⟩ hac
    | true => trivial

private theorem keepsOrder_iff (h : Tracked s) (hs : OrderAgrees s) (e : Step) :
    KeepsOrder s e ↔ InTurn s e := by
  cases e with
  | create r b f =>
    exact iff_of_true ((quiet_create s r b f).keepsOrder hs) trivial
  | check c => exact iff_of_true ((quiet_check s c).keepsOrder hs) trivial
  | append c a => exact keepsOrder_append_iff hs c a
  | push c p => exact keepsOrder_push_iff h hs c p
  | drain => exact iff_of_true ⟨fun _ => ⟨rfl, rfl⟩, orderAgrees_drain h hs⟩ trivial
  | shutdown => exact iff_of_true ((quiet_shutdown s).keepsOrder hs) trivial

end

def start (capacity : Nat) (durable : Bool) : System :=
  { sink := if durable then .withWriter (.new capacity) else .inMemory (.new capacity) }

variable (capacity : Nat) (durable : Bool)

private theorem holds_start : (start capacity durable).sink.ring.Holds [] := by
  cases durable <;> exact RingBuffer.holds_new capacity

private theorem tracked_start : Tracked (start capacity durable) where
  nodup := nodup_nil
  taken := fun _ hd => absurd hd not_mem_nil
  persisted := fun _ _ _ hcl => nomatch hcl
  holds := holds_start capacity durable
  received := fun _ he => absurd he not_mem_nil

private theorem orderAgrees_start : OrderAgrees (start capacity durable) := by
  have hri : (start capacity durable).sink.ring.ordered = [] := by
    rw [(holds_start capacity durable).ordered_eq, drop_nil]
  have hpn : (start capacity durable).pending = [] := by
    rw [pending, EntryRing.drainSince, hri, filter_nil]
  constructor
  · exact fun _ => List.Sublist.refl []
  · exact List.Pairwise.nil
  · rw [hri]
    exact fun _ he => absurd he not_mem_nil
  · rw [hpn]
    exact List.Pairwise.nil

/-- In every interleaving of the steps of any number of calls, durable and in-memory order agree
throughout and nothing is accepted after a recorded failure, exactly when each append and each
push comes in turn. -/
theorem order_agrees_iff_in_turn (capacity : Nat) (durable : Bool) (steps : List Step) :
    AllSteps step KeepsOrder (start capacity durable) steps ↔
      AllSteps step InTurn (start capacity durable) steps :=
  allSteps_iff_of_invariant (I := fun s => Tracked s ∧ OrderAgrees s) (D := fun _ => True)
    (fun _ e _ hs => keepsOrder_iff hs.1 hs.2 e)
    (fun _ e _ hs hke => ⟨hs.1.step e, hke.2⟩) _ steps (fun _ _ => trivial)
    ⟨tracked_start capacity durable, orderAgrees_start capacity durable⟩

/-- The calls 0 and 1 append in turn, but call 1 comes first at the ring: the consumer never gets
the entry of call 0. Of the calls 2 and 3, which were both under way, the second is accepted after
the first one failed. -/
theorem order_disagrees :
    let s := run step (start 8 true)
      [.create 0 none ∅, .create 0 none ∅, .check 0, .check 1, .append 0 .ok, .append 1 .ok,
        .push 1 false, .drain, .push 0 false, .drain, .drain,
        .create 0 none ∅, .create 0 none ∅, .check 2, .check 3, .append 2 (.error "EIO"),
        .append 3 .ok, .push 3 false]
    s.appended.map (·.number) = [0, 1, 3] ∧ s.pushed.map (·.number) = [1, 0, 3] ∧
      s.sink.ring.ordered.map (·.seqnum) = [2, 1, 4] ∧ s.received.map (·.seqnum) = [2] ∧
      s.sink.failure = some "EIO" := by
  decide

/-- The sink has a durable journal, and what was pushed was appended to it. -/
def WritesAhead (s : System) : Prop := s.sink.writer ≠ .absent ∧ s.pushed ⊆ s.appended

theorem WritesAhead.step {s : System} (hwa : WritesAhead s) (h : Tracked s) (e : Step) :
    WritesAhead (s.step e) := by
  cases e with
  | create | drain => exact hwa
  | check c =>
    simp only [System.step, check]
    repeat' split
    all_goals exact hwa
  | append c a =>
    simp only [System.step, append]
    repeat' split
    all_goals first | exact hwa | exact ⟨hwa.1, subset_append_of_subset_left _ hwa.2⟩
  | push c p =>
    simp only [System.step, push]
    split
    · next entry hcl =>
      split
      · exact hwa
      · refine ⟨hwa.1, append_subset.mpr ⟨hwa.2, ?_⟩⟩
        exact cons_subset.mpr ⟨h.persisted hwa.1 c entry hcl, nil_subset _⟩
    · exact hwa
  | shutdown =>
    simp only [System.step, shutdown]
    split
    · exact ⟨by simp, hwa.2⟩
    · exact hwa

/-- With a durable journal, in every interleaving, what the ring holds or the consumer has received
was appended to the journal before. -/
theorem served_entries_durable (capacity : Nat) (steps : List Step) :
    let s := run step (start capacity true) steps
    s.received ++ s.sink.ring.ordered ⊆ s.appended.map (·.entry) := by
  intro s entry he
  obtain ⟨htr, -, hsu⟩ : Tracked s ∧ WritesAhead s :=
    run_preserves (I := fun s => Tracked s ∧ WritesAhead s)
      (fun _ e h => ⟨h.1.step e, h.2.step h.1 e⟩) _ steps
      ⟨tracked_start capacity true, by simp [start, JournalSink.withWriter], Subset.refl _⟩
  have hpsh : entry ∈ s.pushed.map (·.entry) :=
    (mem_append.mp he).elim (fun he => (htr.received entry he).1) htr.mem_pushed
  obtain ⟨d, hd, rfl⟩ := mem_map.mp hpsh
  exact mem_map_of_mem (hsu hd)

end System

end Rustd.Journal
