import Rustd.Unit.Duration
import Rustd.Manager.Exits

/-!
# Expiry of timers

The durations of unit files become relative expiries of timers in three ways: a restart delay is
cast to `i64` and raised to a millisecond, a service timeout saturates, and the trigger of a timer
unit is cast and skipped unless positive. A setting without a value is replaced by its default
before that.
-/

namespace Rustd.Manager

open Base Service UnitFile Option

/-- Expiry of the timer of an automatic restart. -/
def restartExpiry (delay : Nat) : Int := max (truncateI64 delay) 1000000

/-- Expiry of the timer of a trigger, if it is armed. -/
def triggerExpiry (delay : Nat) : Option Int :=
  if truncateI64 delay ≤ 0 then none else some (truncateI64 delay)

/-- The settings of unit files that arm timers: `RestartSec=`, `RestartMaxDelaySec=` once its steps
are through, the timeouts of a service with what stands in for a missing value, and the triggers of
a timer unit. -/
inductive TimeSetting where
  | restartDelay
  | restartMaxDelay
  | serviceTimeout (fallback : Nat)
  | timerTrigger

namespace TimeSetting

def expiry (value : Option Nat) : TimeSetting → Option Int
  | restartDelay => some (restartExpiry (value.getD 100000000))
  | restartMaxDelay => value.map restartExpiry
  | serviceTimeout fallback => some (timerNs (value.getD fallback))
  | timerTrigger => value.bind triggerExpiry

def demanded (numerals : Unit.Numerals) (text : List Char) : Int :=
  if trim text = Unit.Numerals.infinity then i64Max
  else min ((numerals.parseDuration text).getD 0) i64Max

/-- The timer does not fire before the time that the text gives. -/
def NeverEarly (setting : TimeSetting) (numerals : Unit.Numerals) (text : List Char) : Prop :=
  ∀ expiry, setting.expiry (numerals.parseDuration text) = some expiry →
    0 ≤ expiry ∧ demanded numerals text ≤ expiry

def Fits (numerals : Unit.Numerals) (text : List Char) : TimeSetting → Prop
  | restartDelay => ∃ ns, numerals.parseDuration text = some ns ∧ ns ≤ i64Max
  | restartMaxDelay => ∀ ns, numerals.parseDuration text = some ns → ns ≤ i64Max
  | serviceTimeout fallback => numerals.parseDuration text = none → i64Max ≤ fallback
  | timerTrigger => ∀ ns, numerals.parseDuration text = some ns →
      ns ≤ i64Max ∨ ns % 2 ^ 64 = 0 ∨ 2 ^ 63 ≤ ns % 2 ^ 64

section

variable {ns : Nat}

private theorem truncateI64_of_le (h : (ns : Int) ≤ i64Max) : truncateI64 ns = ns := by
  simp only [truncateI64, i64Max] at h ⊢
  rw [if_pos (by omega)]
  omega

private theorem truncateI64_lt (ns : Nat) : truncateI64 ns ≤ i64Max := by
  simp only [truncateI64, i64Max]
  split <;> omega

private theorem truncateI64_ne (h : 1000 ∣ ns) : truncateI64 ns ≠ i64Max := by
  simp only [truncateI64, i64Max]
  split <;> omega

private theorem truncateI64_nonpos_iff (ns : Nat) :
    truncateI64 ns ≤ 0 ↔ ns % 2 ^ 64 = 0 ∨ 2 ^ 63 ≤ ns % 2 ^ 64 := by
  have hlow := Nat.mod_lt ns (Nat.two_pow_pos 64)
  unfold truncateI64
  generalize ns % 2 ^ 64 = low at hlow ⊢
  dsimp only
  split <;> omega

private theorem restartExpiry_nonneg (delay : Nat) : 0 ≤ restartExpiry delay := by
  unfold restartExpiry
  omega

private theorem le_restartExpiry_iff (h : 1000 ∣ ns) :
    min (ns : Int) i64Max ≤ restartExpiry ns ↔ (ns : Int) ≤ i64Max := by
  constructor
  · intro hle
    by_contra hlarge
    have hlt := truncateI64_lt ns
    have hne := truncateI64_ne h
    unfold restartExpiry at hle
    simp only [i64Max] at *
    omega
  · intro hft
    unfold restartExpiry
    rw [truncateI64_of_le hft]
    omega

private theorem triggerExpiry_nonneg {expiry : Int} (h : triggerExpiry d = some expiry) :
    0 ≤ expiry := by
  unfold triggerExpiry at h
  split at h
  · cases h
  · cases h
    omega

private theorem le_triggerExpiry_iff (h : 1000 ∣ ns) :
    (∀ e, triggerExpiry ns = some e → min (ns : Int) i64Max ≤ e) ↔
      (ns : Int) ≤ i64Max ∨ ns % 2 ^ 64 = 0 ∨ 2 ^ 63 ≤ ns % 2 ^ 64 := by
  have hsp := truncateI64_nonpos_iff ns
  unfold triggerExpiry
  by_cases hsk : truncateI64 ns ≤ 0
  · simp only [hsk, if_true, reduceCtorEq, false_implies, implies_true, true_iff]
    exact .inr (hsp.mp hsk)
  have hlt := truncateI64_lt ns
  have hne := truncateI64_ne h
  simp only [hsk, if_false, some.injEq, forall_eq', ← hsp, or_false]
  constructor
  · intro hle
    by_contra hlarge
    omega
  intro hft
  rw [truncateI64_of_le hft]
  omega

end

/-- A timer is never early exactly when the text of its setting fits: restart delays and triggers
when they are within `i64` nanoseconds (a trigger also when its cast is not positive, since it is
skipped then), and `infinity` only for what needs no timer or has a default as long. -/
theorem never_early_iff (numerals : Unit.Numerals) (text : List Char)
    (h : numerals.Accepts text) (setting : TimeSetting) :
    setting.NeverEarly numerals text ↔ setting.Fits numerals text := by
  rcases h with hin | hsome
  · have hva := numerals.parseDuration_infinity hin
    have hde : demanded numerals text = i64Max := if_pos hin
    unfold NeverEarly
    rw [hde, hva]
    cases setting with
    | restartDelay =>
      simp only [expiry, Fits, hva, some.injEq, forall_eq', reduceCtorEq, false_and,
        exists_false, iff_false]
      decide
    | restartMaxDelay => simp [expiry, Fits, hva]
    | serviceTimeout f =>
      simp only [expiry, Fits, hva, some.injEq, forall_eq', getD_none, forall_const]
      simp only [timerNs, i64Max]
      omega
    | timerTrigger => simp [expiry, Fits, hva]
  · obtain ⟨ns, hva⟩ := isSome_iff_exists.mp hsome
    have hmi := numerals.dvd_of_parseDuration hva
    have hde : demanded numerals text = min (ns : Int) i64Max := by
      rw [demanded, if_neg, hva, getD_some]
      intro hin
      rw [numerals.parseDuration_infinity hin] at hva
      cases hva
    unfold NeverEarly
    rw [hde, hva]
    cases setting with
    | restartDelay =>
      have hno := restartExpiry_nonneg ns
      simp only [expiry, Fits, hva, some.injEq, forall_eq', getD_some, hno,
        true_and, exists_eq_left', le_restartExpiry_iff hmi]
    | restartMaxDelay =>
      have hno := restartExpiry_nonneg ns
      simp only [expiry, Fits, hva, map_some, some.injEq, forall_eq', hno,
        true_and, le_restartExpiry_iff hmi]
    | serviceTimeout f =>
      simp only [expiry, Fits, hva, some.injEq, forall_eq', getD_some,
        reduceCtorEq, false_implies, iff_true, timerNs, i64Max]
      omega
    | timerTrigger =>
      simp only [expiry, Fits, hva, bind_some, some.injEq, forall_eq',
        ← le_triggerExpiry_iff hmi]
      constructor
      · exact fun h e he => (h e he).2
      · exact fun h e he => ⟨triggerExpiry_nonneg he, h e he⟩

def fives : Unit.Numerals := ⟨fun _ unit => some (5 * unit), fun _ => false⟩

private theorem parseDuration_five : fives.parseDuration ['5'] = some 5000000000 := by
  have hrest : fives.addParts 5000000 [] = some 5000000 := by
    rw [Unit.Numerals.addParts]
    rfl
  rw [Unit.Numerals.parseDuration, if_neg (by decide)]
  have htri : trim ['5'] = ['5'] := by decide
  have hpr : fives.addParts 0 ['5'] = fives.addParts 5000000 [] := by
    rw [Unit.Numerals.addParts]
    rfl
  rw [htri, hpr, hrest]
  rfl

theorem never_early_iff_five : restartDelay.NeverEarly fives ['5'] :=
  (never_early_iff fives ['5'] (.inr (by rw [parseDuration_five]; rfl)) restartDelay).mpr
    ⟨5000000000, parseDuration_five, by decide⟩

/-- `RestartSec=infinity` restarts after a tenth of a second, and a delay of 584 years after a
millisecond; as a trigger the same duration fires after 384 nanoseconds. -/
theorem infinite_restart_delay_is_early :
    fives.Accepts Unit.Numerals.infinity ∧
      restartDelay.expiry (fives.parseDuration Unit.Numerals.infinity) = some 100000000 ∧
      restartDelay.expiry (some 18446744073709552000) = some 1000000 ∧
      timerTrigger.expiry (some 18446744073709552000) = some 384 ∧
      ¬restartDelay.NeverEarly fives Unit.Numerals.infinity := by
  have hva : fives.parseDuration Unit.Numerals.infinity = none :=
    fives.parseDuration_infinity (by decide)
  refine ⟨.inl (by decide), by rw [hva]; rfl, by decide, by decide, ?_⟩
  intro h
  have hea := (h 100000000 (by rw [hva]; rfl)).2
  rw [demanded, if_pos (by decide)] at hea
  exact absurd hea (by decide)

end TimeSetting

section

variable {W : Type} [Kernel W]

theorem scheduleRestart_eq (m : Manager W) (u : String) (d : Nat) :
    m.scheduleRestart u d =
      let armed := m.ask (Kernel.addTimer · (restartExpiry d).toNat)
      match armed.1 with
      | .ok so => { armed.2 with restartTimers := armed.2.restartTimers ++ [(so, u)] }
      | .error _ => { armed.2 with jobQueue := armed.2.jobQueue.enqueueInternal .start u } :=
  rfl

end

variable (cv : Nat → Nat → Nat → Nat → Nat) (s : ServiceSection)

theorem restartDelayFor_of_none (n : Nat) (h : s.restartMaxDelaySec = none) :
    restartDelayFor cv s n = s.restartSec.getD 100000000 := by
  simp [restartDelayFor, h]

/-- `RestartMaxDelaySec=` is the delay of every restart after the steps. -/
theorem restartDelayFor_of_steps_lt {n maximum : Nat} (h : s.restartMaxDelaySec = some maximum)
    (hsteps : 0 < s.restartSteps.getD 0) (hn : s.restartSteps.getD 0 < n)
    (hinitial : 0 < s.restartSec.getD 100000000)
    (hmaximum : s.restartSec.getD 100000000 < maximum) : restartDelayFor cv s n = maximum := by
  have hgrows : ¬(n ≤ 1 ∨ s.restartSteps.getD 0 = 0 ∨ s.restartSec.getD 100000000 = 0 ∨
      maximum ≤ s.restartSec.getD 100000000) := by omega
  simp only [restartDelayFor, h, if_neg hgrows, if_pos hn]

theorem triggerDelays_eq (t : TimerSection) :
    triggerDelays t = [t.onBootSec, t.onActiveSec, t.onUnitActiveSec, t.onUnitInactiveSec].filterMap
      fun v => (TimeSetting.timerTrigger.expiry v).map Int.toNat := by
  rw [triggerDelays, List.filterMap_filterMap]
  congr 1
  funext v
  cases v with
  | none => rfl
  | some d =>
    simp only [TimeSetting.expiry, triggerExpiry, id, bind_some]
    split <;> rfl

end Rustd.Manager
