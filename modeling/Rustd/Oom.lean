import Rustd.Base.Run
import Rustd.Base.Text

/-!
# Out-of-memory events

`src/oom.rs`: the kernel counts the processes it killed in `memory.events` of a unit's cgroup. A
source registers the current count as the unit's baseline; the epoll handler and the manager itself
sample the count, each sample becomes the next baseline, and a unit whose count rose is listed
until the manager takes the list. The history of these events decides what is listed:
`listed_iff_risen_since_drain`.
-/

namespace Rustd.Oom

open Base List Option Function

/-- `PendingOomEvents` and `OomBaselines`, shared by all sources. -/
structure Monitor where
  pending : List String
  baselines : String → Option Nat

/-- The monitor of a manager that starts. -/
def Monitor.empty : Monitor := ⟨[], fun _ => none⟩

def splitWhitespace (line : List Char) : List (List Char) :=
  (line.splitOnP isWhitespace).filter (!·.isEmpty)

/-- A line with the key whose number is not valid is passed over. -/
def parseCounter (contents key : List Char) : Option Nat :=
  (lines contents).findSome? fun line =>
    match splitWhitespace line with
    | first :: second :: _ => if first = key then parseUnsigned (2 ^ 64) second else none
    | _ => none

/-- A file that cannot be opened or read has no contents. -/
def readCounter (contents : Option (List Char)) : Option Nat :=
  contents.bind (parseCounter · "oom_kill".toList)

/-- `observe_value` of `src/oom.rs:158`. -/
def observeValue (unit : String) (current : Nat) (m : Monitor) : Monitor :=
  let increased := (m.baselines unit).any (· < current)
  let m := { m with baselines := update m.baselines unit (some current) }
  if !increased then m
  else if m.pending.any (· == unit) then m
  else { m with pending := m.pending ++ [unit] }

/-- What happens to the monitor. The contents are those of `memory.events` at the time. -/
inductive Event where
  /-- `OomEventSource::for_unit` -/
  | forUnit (unit : String) (contents : Option (List Char))
  /-- `OomEventSource::refresh`, called by the epoll handler -/
  | refresh (unit : String) (contents : Option (List Char))
  /-- `sync_unit` -/
  | syncUnit (unit : String) (contents : Option (List Char))
  /-- `remove_baseline` -/
  | removeBaseline (unit : String)
  /-- The manager takes the list -/
  | drain
  deriving DecidableEq

/-- One event. A count that cannot be read changes nothing. -/
def step (m : Monitor) : Event → Monitor
  | .forUnit unit contents =>
    match readCounter contents with
    | some current => { m with baselines := update m.baselines unit (some current) }
    | none => m
  | .refresh unit contents | .syncUnit unit contents =>
    match readCounter contents with
    | some current => observeValue unit current m
    | none => m
  | .removeBaseline unit => { m with baselines := update m.baselines unit none }
  | .drain => { m with pending := [] }

/-! ### Histories -/

def Event.sample : Event → Option (String × Nat)
  | .refresh unit contents | .syncUnit unit contents => (readCounter contents).map (unit, ·)
  | _ => none

def Event.change (unit : String) : Event → Option (Option Nat)
  | .forUnit other contents | .refresh other contents | .syncUnit other contents =>
    if other = unit then (readCounter contents).map some else none
  | .removeBaseline other => if other = unit then some none else none
  | .drain => none

def stored (unit : String) (es : List Event) : Option Nat :=
  (es.filterMap (Event.change unit)).getLast?.join

def Event.rises (before : List Event) (e : Event) : Option String :=
  e.sample.bind fun (unit, current) =>
    if (stored unit before).any (· < current) then some unit else none

/-- The event at a position is a sample of the unit that exceeds the value stored before it, and the
list has not been taken since. -/
def RisenAt (es : List Event) (i : Nat) (unit : String) : Prop :=
  ∃ e, es[i]? = some e ∧ e.rises (es.take i) = some unit ∧ Event.drain ∉ es.drop i

section

variable {es : List Event} {e : Event} {unit : String} {i : Nat} {m m' : Monitor}

private theorem stored_concat (unit : String) (es : List Event) (e : Event) :
    stored unit (es ++ [e]) = (e.change unit).getD (stored unit es) := by
  rw [stored, filterMap_append, getLast?_append]
  cases h : e.change unit with
  | none => simp [h, stored]
  | some v => simp [h]

private theorem RisenAt.lt_length (h : RisenAt es i unit) : i < es.length := by
  obtain ⟨e, hget, -⟩ := h
  exact (List.getElem?_eq_some_iff.mp hget).1

/-- After one more event the old increases count unless the list was taken, and the event itself may
be one. -/
theorem risenAt_concat :
    RisenAt (es ++ [e]) i unit ↔
      (e ≠ .drain ∧ RisenAt es i unit) ∨ (i = es.length ∧ e.rises es = some unit) := by
  rcases lt_trichotomy i es.length with hlt | rfl | hgt
  · simp only [RisenAt, getElem?_append_left hlt, take_append_of_le_length hlt.le,
      drop_append_of_le_length hlt.le, mem_append, mem_singleton, not_or, hlt.ne,
      false_and, or_false]
    constructor
    · rintro ⟨e', hget, hrss, hkp, hdr⟩
      exact ⟨Ne.symm hdr, e', hget, hrss, hkp⟩
    · rintro ⟨hdr, e', hget, hrss, hkp⟩
      exact ⟨e', hget, hrss, hkp, Ne.symm hdr⟩
  · have hold : ¬RisenAt es es.length unit := fun h => lt_irrefl _ h.lt_length
    rw [or_iff_right (hold ·.2)]
    simp only [RisenAt, getElem?_concat_length, take_left', drop_left',
      mem_singleton, some.injEq, exists_eq_left', true_and, and_iff_left_iff_imp]
    rintro hrss rfl
    cases hrss
  · have hold : ¬RisenAt es i unit := fun h => lt_asymm hgt h.lt_length
    have hnew : ¬RisenAt (es ++ [e]) i unit := by
      intro h
      have hlt : i < es.length + 1 := by simpa using h.lt_length
      omega
    simp [hold, hnew, hgt.ne']

private theorem step_baselines (m : Monitor) (e : Event) (unit : String) :
    (step m e).baselines unit = (e.change unit).getD (m.baselines unit) := by
  have hob : ∀ v c, (observeValue v c m).baselines =
      update m.baselines v (some c) := by
    intro v c
    simp only [observeValue]
    split_ifs <;> rfl
  have hup : ∀ v (va : Option Nat), update m.baselines v va unit =
      (if v = unit then some va else none).getD (m.baselines unit) := by
    intro v va
    by_cases h : v = unit
    · rw [h, update_self, if_pos rfl, getD_some]
    · rw [update_of_ne (Ne.symm h), if_neg h, getD_none]
  cases e with
  | forUnit v contents | refresh v contents | syncUnit v contents =>
    cases h : readCounter contents <;> simp [step, Event.change, h, hob, hup]
  | removeBaseline v => simp [step, Event.change, hup]
  | drain => rfl

private theorem step_pending (h : ∀ unit, m.baselines unit = stored unit es) (e : Event) :
    (step m e).pending = if e = .drain then [] else
      m.pending ++ (e.rises es).toList.filter (· ∉ m.pending) := by
  cases e with
  | refresh unit c | syncUnit unit c =>
    cases hrea : readCounter c with
    | none => simp [step, Event.rises, Event.sample, hrea]
    | some cu =>
      by_cases hri : (stored unit es).any (· < cu) = true <;>
        by_cases hmem : unit ∈ m.pending <;>
        simp [step, Event.rises, Event.sample, hrea, observeValue, h, hri, hmem]
  | forUnit unit c =>
    cases hrea : readCounter c <;> simp [step, Event.rises, Event.sample, hrea]
  | removeBaseline unit => simp [step, Event.rises, Event.sample]
  | drain => rfl

/-- A monitor holds what a history says: the last value of every unit, and once each the units that
have risen since the list was taken, in the order in which they first did. -/
structure Explains (es : List Event) (m : Monitor) : Prop where
  baselines : ∀ unit, m.baselines unit = stored unit es
  mem_pending : ∀ unit, unit ∈ m.pending ↔ ∃ i, RisenAt es i unit
  nodup : m.pending.Nodup
  order : m.pending.Pairwise fun first second =>
    ∃ i, RisenAt es i first ∧ ∀ j, RisenAt es j second → i < j

theorem Explains.step (h : Explains es m) (e : Event) : Explains (es ++ [e]) (step m e) := by
  have hba : ∀ unit, (Oom.step m e).baselines unit = stored unit (es ++ [e]) := by
    intro unit
    rw [step_baselines, stored_concat, h.baselines]
  have hpn := step_pending h.baselines e
  by_cases hdr : e = .drain
  · subst hdr
    rw [if_pos rfl] at hpn
    refine ⟨hba, fun unit => ?_, by rw [hpn]; exact .nil, by rw [hpn]; exact .nil⟩
    have hrss : Event.drain.rises es = none := rfl
    simp [hpn, risenAt_concat, hrss]
  · rw [if_neg hdr] at hpn
    -- the event comes after every earlier increase
    have hls : ∀ a snd, (∃ i, RisenAt es i a ∧ ∀ j, RisenAt es j snd → i < j) →
        ∃ i, RisenAt (es ++ [e]) i a ∧ ∀ j, RisenAt (es ++ [e]) j snd → i < j := by
      rintro a snd ⟨i, hi, hbf⟩
      refine ⟨i, risenAt_concat.mpr (.inl ⟨hdr, hi⟩), fun j hj => ?_⟩
      rcases risenAt_concat.mp hj with ⟨-, hj⟩ | ⟨rfl, -⟩
      · exact hbf j hj
      · exact hi.lt_length
    have hsi : ∀ R : String → String → Prop,
        ((e.rises es).toList.filter (· ∉ m.pending)).Pairwise R :=
      fun R => List.Pairwise.filter _ (by cases e.rises es <;> simp)
    refine ⟨hba, fun unit => ?_, ?_, ?_⟩
    · simp only [hpn, risenAt_concat, mem_append, mem_filter, mem_toList, decide_eq_true_eq, ne_eq,
        hdr, not_false_eq_true, true_and, exists_or, exists_and_right, exists_eq, h.mem_pending]
      exact or_congr_right' fun hnn => and_iff_left hnn
    · rw [hpn]
      refine nodup_append.mpr ⟨h.nodup, ?_, ?_⟩
      · exact hsi _
      · rintro a hfr snd hsn rfl
        simp [hfr] at hsn
    · rw [hpn, pairwise_append]
      refine ⟨h.order.imp (hls _ _), ?_, ?_⟩
      · exact hsi _
      intro a hfr snd hsn
      obtain ⟨i, hi⟩ := (h.mem_pending a).mp hfr
      have hnot : snd ∉ m.pending := by simpa using (mem_filter.mp hsn).2
      refine hls a snd ⟨i, hi, fun j hj => ?_⟩
      exact absurd ((h.mem_pending snd).mpr ⟨j, hj⟩) hnot

private theorem explains_run (es : List Event) : Explains es (run step .empty es) := by
  induction es using List.reverseRecOn with
  | nil =>
    refine ⟨fun _ => rfl, fun _ => ⟨nofun, fun ⟨_, h⟩ => absurd h.lt_length ?_⟩, .nil, .nil⟩
    exact Nat.not_lt_zero _
  | append_singleton es e ih =>
    rw [run_append]
    exact ih.step e

/-- The monitors differ in one unit only. -/
structure AgreesOff (unit : String) (m m' : Monitor) : Prop where
  baselines : ∀ other, other ≠ unit → m.baselines other = m'.baselines other
  pending : m.pending.filter (· != unit) = m'.pending.filter (· != unit)

private theorem agreesOff_observeValue_self (unit : String) (c : Nat) (m : Monitor) :
    AgreesOff unit (observeValue unit c m) m := by
  simp only [observeValue]
  constructor
  · intro v hother
    split_ifs <;> exact update_of_ne hother _ _
  · split_ifs <;> simp

theorem AgreesOff.step (h : AgreesOff unit m m') (e : Event) :
    AgreesOff unit (step m e) (step m' e) := by
  have hba : ∀ other, other ≠ unit →
      (Oom.step m e).baselines other = (Oom.step m' e).baselines other := by
    intro other hother
    rw [step_baselines, step_baselines, h.baselines other hother]
  refine ⟨hba, ?_⟩
  have hmem : ∀ other, other ≠ unit → (other ∈ m.pending ↔ other ∈ m'.pending) := by
    intro other hother
    have heq : other ∈ m.pending.filter (· != unit) ↔ other ∈ m'.pending.filter (· != unit) := by
      rw [h.pending]
    simpa [hother] using heq
  have hob : ∀ other c, (observeValue other c m).pending.filter (· != unit) =
      (observeValue other c m').pending.filter (· != unit) := by
    intro other c
    by_cases hother : other = unit
    · rw [hother, (agreesOff_observeValue_self unit c m).pending,
        (agreesOff_observeValue_self unit c m').pending, h.pending]
    have hany : m.pending.any (· == other) = m'.pending.any (· == other) := by
      rw [Bool.eq_iff_iff]
      simp [hmem other hother]
    simp only [observeValue, h.baselines other hother, hany]
    split_ifs <;> simp [h.pending]
  cases e with
  | forUnit other contents | refresh other contents | syncUnit other contents =>
    cases hrea : readCounter contents <;> simp only [Oom.step, hrea, hob, h.pending]
  | removeBaseline other => exact h.pending
  | drain => rfl

theorem AgreesOff.run (h : AgreesOff unit m m') (es : List Event) :
    AgreesOff unit (run Oom.step m es) (run Oom.step m' es) := by
  induction es generalizing m m' with
  | nil => exact h
  | cons e es ih => exact ih (h.step e)

private theorem agreesOff_step_of_sample (h : e.sample = some (unit, c))
    (m : Monitor) : AgreesOff unit (step m e) m := by
  cases e with
  | refresh other contents | syncUnit other contents =>
    obtain ⟨v, hrea, heq⟩ := map_eq_some_iff.mp h
    cases heq
    simp only [step, hrea]
    exact agreesOff_observeValue_self unit c m
  | forUnit | removeBaseline | drain => cases h

end

/-- For every sequence of registrations, removals, drains and samples by either entry point, a unit
is listed exactly if a sample of it since the last drain exceeded the value stored for it before.
Every unit is listed once, in the order of the first such samples, and leaving out a sample of one
unit changes neither the value nor the place of another. -/
theorem listed_iff_risen_since_drain (es : List Event) :
    (∀ unit, unit ∈ (run step .empty es).pending ↔ ∃ i, RisenAt es i unit) ∧
    (run step .empty es).pending.Nodup ∧
    ((run step .empty es).pending.Pairwise fun first second =>
      ∃ i, RisenAt es i first ∧ ∀ j, RisenAt es j second → i < j) ∧
    ∀ before e after unit current, es = before ++ e :: after → e.sample = some (unit, current) →
      AgreesOff unit (run step .empty es) (run step .empty (before ++ after)) := by
  have h := explains_run es
  refine ⟨h.mem_pending, h.nodup, h.order, ?_⟩
  rintro before e after unit current rfl hsa
  rw [run_append, run_append, run_cons]
  exact (agreesOff_step_of_sample hsa _).run after

end Rustd.Oom
