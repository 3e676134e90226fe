import Rustd.Manager.Loop

/-!
# Watchdog polling

The main loop sleeps until the next watchdog deadline (`next_poll_timeout_ms`) after it has expired
the missed ones (`expire_watchdogs`). The two walk the unit table with different tests: only expiry
asks for a main process, and the sums of timestamp and interval saturate on different sides.
-/

namespace Rustd.Manager

open Base Service UnitFile List Option Std.ExtTreeMap

variable {W : Type}

def saturatingAdd (a b : Int) : Int := max (-(2 ^ 63)) (min i64Max (a + b))

variable (records : List UnitRecord) (m : Manager W) (now : Int) (r : UnitRecord)

/-- Time to the watchdog deadline of a unit. -/
def watchdogRemaining : Option Int :=
  if r.watchdogTriggered then none
  else match watchdogIntervalNs r, r.watchdogTimestampNs with
    | some interval, some last => some (max 0 (saturatingSub (saturatingAdd last interval) now))
    | _, _ => none

/-- The loop over the units takes the nearest deadline. -/
def takeNearer (nearest : Int) (r : UnitRecord) : Int :=
  match watchdogRemaining now r with
  | some remaining => min nearest remaining
  | none => nearest

/-- Where the loop begins: a pending PID file is looked for again soon. -/
def pollStart : Int :=
  if records.any forkingPidFilePending then min 30000000000 50000000 else 30000000000

/-- Time to the nearest deadline in nanoseconds. -/
def nearestNs : Int :=
  records.foldl (takeNearer now) (pollStart records)

/-- The conversion to `i32` with its default. -/
def toI32 (n default : Int) : Int := if -(2 ^ 31) ≤ n ∧ n < 2 ^ 31 then n else default

/-- The poll timeout at a given time. -/
def nextPollTimeoutAt : Int :=
  let nearest := nearestNs (m.units.toList.map Prod.snd) now
  let milliseconds := saturatingAdd nearest 999999 / 1000000
  toI32 (min milliseconds 30000) 30000

/-- The poll timeout by the clock. -/
def nextPollTimeoutMs [Kernel W] (m : Manager W) : Int :=
  match (Kernel.monotonic m.world).1 with
  | none => 30000
  | some now => m.nextPollTimeoutAt now

/-- Expiry would act on the watchdog of the unit, at its deadline. -/
structure Watched (r : UnitRecord) (deadline : Int) : Prop where
  untriggered : r.watchdogTriggered = false
  deadline_eq : ∃ interval last, watchdogIntervalNs r = some interval ∧
    r.watchdogTimestampNs = some last ∧ deadline = last + interval
  main : r.activePid.isSome = true

/-- The poll timeout agrees with expiry: it is not zero, at most thirty seconds, and exceeds the
time to a deadline by less than one millisecond. -/
structure PollAgrees (m : Manager W) (now : Int) : Prop where
  awake : m.nextPollTimeoutAt now ≠ 0
  bounded : m.nextPollTimeoutAt now ≤ 30000
  close : ∀ (name : String) (r : UnitRecord) (deadline : Int), m.units[name]? = some r →
    Watched r deadline → m.nextPollTimeoutAt now * 1000000 < max 0 (deadline - now) + 1000000

/-- The deadline of the unit has passed for the poll timeout only: the unit has no main process, or
the deadline is beyond the largest `i64` and the clock is at it. -/
def Overlooked : Prop :=
  r.watchdogTriggered = false ∧ ∃ interval last, watchdogIntervalNs r = some interval ∧
    r.watchdogTimestampNs = some last ∧
      (r.activePid = none ∧ last + interval ≤ now ∨ now = i64Max ∧ i64Max < last + interval)

section

variable {records : List UnitRecord} {now : Int}

private theorem foldl_takeNearer (now : Int) (records : List UnitRecord) (i : Int) :
    let nearest := records.foldl (takeNearer now) i
    nearest ≤ i ∧
      (∀ r ∈ records, ∀ re, watchdogRemaining now r = some re →
        nearest ≤ re) ∧
      (nearest = i ∨ ∃ r ∈ records, watchdogRemaining now r = some nearest) := by
  induction records generalizing i with
  | nil => simp
  | cons r l ih =>
    rw [foldl_cons, takeNearer]
    cases hr : watchdogRemaining now r with
    | none =>
      obtain ⟨hstr, hall, hfn⟩ := ih i
      refine ⟨hstr, ?_, ?_⟩
      · intro r' hr' re hrmn
        rcases mem_cons.mp hr' with rfl | hr'
        · rw [hr] at hrmn
          cases hrmn
        · exact hall r' hr' re hrmn
      · rcases hfn with hfn | ⟨r', hr', hfn⟩
        · exact .inl hfn
        · exact .inr ⟨r', mem_cons_of_mem _ hr', hfn⟩
    | some a =>
      obtain ⟨hstr, hall, hfn⟩ := ih (min i a)
      refine ⟨Int.le_trans hstr (Int.min_le_left ..), ?_, ?_⟩
      · intro r' hr' re hrmn
        rcases mem_cons.mp hr' with rfl | hr'
        · rw [hr] at hrmn
          cases hrmn
          exact Int.le_trans hstr (Int.min_le_right ..)
        · exact hall r' hr' re hrmn
      · rcases hfn with hfn | ⟨r', hr', hfn⟩
        · rcases Int.le_total i a with hle | hle
          · exact .inl (by rw [hfn, Int.min_eq_left hle])
          · refine .inr ⟨r, mem_cons_self .., ?_⟩
            rw [hr, hfn, Int.min_eq_right hle]
        · exact .inr ⟨r', mem_cons_of_mem _ hr', hfn⟩

variable {r : UnitRecord}

private theorem watchdogIntervalNs_range (h : watchdogIntervalNs r = some i) :
    0 ≤ i ∧ i ≤ i64Max := by
  unfold watchdogIntervalNs at h
  obtain ⟨s, -, hs⟩ := bind_eq_some_iff.mp h
  obtain ⟨ns, -, rfl⟩ := map_eq_some_iff.mp hs
  simp only [nanosI64, i64Max]
  omega

private theorem remaining_nonneg {remaining : Int} (h : watchdogRemaining now r = some remaining) :
    0 ≤ remaining := by
  unfold watchdogRemaining at h
  split at h
  · cases h
  split at h
  · cases h
    exact Int.le_max_left ..
  · cases h

/-- The nearest deadline is within thirty seconds, no later than any watchdog's, and now exactly
when a watchdog's is. -/
theorem nearestNs_spec (records : List UnitRecord) (now : Int) :
    0 ≤ nearestNs records now ∧ nearestNs records now ≤ 30000000000 ∧
      (∀ r ∈ records, ∀ re, watchdogRemaining now r = some re →
        nearestNs records now ≤ re) ∧
      (nearestNs records now = 0 ↔ ∃ r ∈ records, watchdogRemaining now r = some 0) := by
  have hstr : 0 < pollStart records ∧ pollStart records ≤ 30000000000 := by
    unfold pollStart
    split <;> decide
  obtain ⟨hle, hall, hfn⟩ := foldl_takeNearer now records (pollStart records)
  rw [← nearestNs] at hle hall hfn
  have hnonneg : 0 ≤ nearestNs records now := by
    rcases hfn with hfn | ⟨r, -, hfn⟩
    · omega
    · exact remaining_nonneg hfn
  refine ⟨hnonneg, Int.le_trans hle hstr.2, hall, ?_, ?_⟩
  · intro hzr
    rcases hfn with hfn | ⟨r, hr, hfn⟩
    · omega
    · exact ⟨r, hr, hzr ▸ hfn⟩
  · rintro ⟨r, hr, hzr⟩
    exact Int.le_antisymm (hall r hr 0 hzr) hnonneg

private theorem nextPollTimeoutAt_spec (m : Manager W) (now : Int) :
    let nearest := nearestNs (m.units.toList.map Prod.snd) now
    m.nextPollTimeoutAt now ≤ 30000 ∧ m.nextPollTimeoutAt now * 1000000 < nearest + 1000000 ∧
      (m.nextPollTimeoutAt now = 0 ↔ nearest = 0) := by
  obtain ⟨h, hle, -, -⟩ := nearestNs_spec (m.units.toList.map Prod.snd) now
  simp only [nextPollTimeoutAt, saturatingAdd, i64Max]
  generalize nearestNs (m.units.toList.map Prod.snd) now = nearest at h hle ⊢
  have hsaturated : max (-2 ^ 63) (min (2 ^ 63 - 1) (nearest + 999999)) = nearest + 999999 := by
    omega
  have hcapped : min ((nearest + 999999) / 1000000) 30000 = (nearest + 999999) / 1000000 := by
    omega
  have hft : toI32 ((nearest + 999999) / 1000000) 30000 = (nearest + 999999) / 1000000 :=
    if_pos (by omega)
  rw [hsaturated, hcapped, hft]
  omega

private theorem nextPollTimeoutAt_eq_zero_iff (m : Manager W) (now : Int) :
    m.nextPollTimeoutAt now = 0 ↔
      ∃ (u : String) (r : UnitRecord), m.units[u]? = some r ∧
        watchdogRemaining now r = some 0 := by
  rw [(nextPollTimeoutAt_spec m now).2.2, (nearestNs_spec _ now).2.2.2]
  constructor
  · rintro ⟨r, hr, hzr⟩
    obtain ⟨⟨u, r'⟩, hmem, rfl⟩ := List.mem_map.mp hr
    exact ⟨u, r', mem_toList_iff_getElem?_eq_some.mp hmem, hzr⟩
  rintro ⟨u, r, hr, hzr⟩
  have hmem := mem_toList_iff_getElem?_eq_some.mpr hr
  exact ⟨r, List.mem_map.mpr ⟨(u, r), hmem, rfl⟩, hzr⟩

private theorem nextPollTimeoutAt_lt {m : Manager W} {now d : Int} {u : String}
    (hnow : -(2 ^ 63) ≤ now) (hr : m.units[u]? = some r) (h : Watched r d) :
    m.nextPollTimeoutAt now * 1000000 < max 0 (d - now) + 1000000 := by
  obtain ⟨hfre, ⟨i, l, hir, hls, rfl⟩, -⟩ := h
  have hrmn : watchdogRemaining now r =
      some (max 0 (saturatingSub (saturatingAdd l i) now)) := by
    simp [watchdogRemaining, hfre, hir, hls]
  have hmem : r ∈ m.units.toList.map Prod.snd :=
    List.mem_map.mpr ⟨(u, r), mem_toList_iff_getElem?_eq_some.mpr hr, rfl⟩
  have hnearest := (nearestNs_spec _ now).2.2.1 r hmem _ hrmn
  have hround := (nextPollTimeoutAt_spec m now).2.1
  have hsaturated : max 0 (saturatingSub (saturatingAdd l i) now) ≤
      max 0 (l + i - now) := by
    simp only [saturatingSub, saturatingAdd, i64Max]
    omega
  omega

private theorem overlooked_iff (hnow : -(2 ^ 63) ≤ now) (hend : now ≤ i64Max) :
    watchdogRemaining now r = some 0 ∧ watchdogExpired now r = false ↔ Overlooked now r := by
  unfold watchdogRemaining watchdogExpired Overlooked
  cases htriggered : r.watchdogTriggered with
  | true => simp
  | false =>
    cases hir : watchdogIntervalNs r with
    | none => simp
    | some interval =>
      cases hls : r.watchdogTimestampNs with
      | none => simp
      | some l =>
        have hra := watchdogIntervalNs_range hir
        have hpassed : max 0 (saturatingSub (saturatingAdd l interval) now) = 0 ↔
            l + interval ≤ now ∨ now = i64Max ∧ i64Max < l + interval := by
          simp only [saturatingSub, saturatingAdd, i64Max] at hend hra ⊢
          omega
        have hmi : interval ≤ saturatingSub now l ↔ l + interval ≤ now := by
          simp only [saturatingSub, i64Max] at hend hra ⊢
          omega
        simp only [Bool.false_eq_true, if_false, Option.some.injEq, hpassed, Bool.not_false,
          Bool.true_and, true_and]
        cases hma : r.activePid with
        | none =>
          constructor
          · rintro ⟨h, -⟩
            exact ⟨interval, l, rfl, rfl, h.imp (⟨rfl, ·⟩) id⟩
          · rintro ⟨_, _, rfl, rfl, h⟩
            exact ⟨h.imp And.right id, rfl⟩
        | some pid =>
          simp only [decide_eq_false_iff_not, hmi, reduceCtorEq, false_and, false_or]
          constructor
          · rintro ⟨h, hnot⟩
            exact ⟨interval, l, rfl, rfl, h.resolve_left hnot⟩
          · rintro ⟨_, _, rfl, rfl, h⟩
            exact ⟨.inr h, by omega⟩

end

section

variable [Kernel W] {ok : UnitRecord → Prop} {name : String}

private theorem watchdogTriggered_finishTimeoutFailure (r : UnitRecord) (res : ServiceResult)
    (nf cg : Bool) (w : W) : (finishTimeoutFailure name r res nf cg w).1.watchdogTriggered =
      r.watchdogTriggered := by
  unfold finishTimeoutFailure
  split
  · rfl
  rename_i s hs
  simp only [releaseIdleGate_record]
  generalize (releaseIdleGate r w).2 = w'
  rcases teardown_record name s
    { r with
      idleGateFd := none
      activePid := none
      controlPid := none
      state := .failed
      serviceResult := res } nf cg w' with h | h <;> rw [h]

namespace Starts

def KeptByTimeout (W : Type) [Kernel W] (ok : UnitRecord → Prop) : Prop :=
  ∀ (name : String) (r : UnitRecord) (result : ServiceResult) (notify inCgroup : Bool) (w : W),
    ok r → ok (finishTimeoutFailure name r result notify inCgroup w).1

variable (hok : KeptByTimeout W ok) (m : Manager W)

include hok

theorem finalizeTimeoutWithoutExit (res : ServiceResult) :
    Starts ok name m (m.finalizeTimeoutWithoutExit name res) := by
  simp only [Manager.finalizeTimeoutWithoutExit]
  refine (of_units ?_).trans (apply () _ fun r w h => hok name r res _ _ w h)
  simp [Manager.ask]

theorem applyFinalKill : Starts ok name m (m.applyFinalKill name) := by
  simp only [Manager.applyFinalKill]
  refine (of_units (units_signalTimeoutOperation m name .kill)).trans ?_
  split
  · exact finalizeTimeoutWithoutExit hok _ _
  · exact of_units rfl

theorem armServiceStopTimeout (t : Nat) : Starts ok name m (m.armServiceStopTimeout name t) := by
  simp only [Manager.armServiceStopTimeout]
  refine (of_units (units_cancelStopTimeout m name)).trans ?_
  split
  · exact of_units rfl
  · exact (ask _ _).trans (applyFinalKill hok _)

theorem signalAndWait (op : KillOperation) (t : Nat) (res : ServiceResult) :
    Starts ok name m (m.signalAndWait name op t res) := by
  simp only [Manager.signalAndWait]
  refine (of_units (units_signalTimeoutOperation m name op)).trans ?_
  split
  · exact finalizeTimeoutWithoutExit hok _ _
  · exact armServiceStopTimeout hok _ _

end Starts

def WatchdogMarked (m : Manager W) (name : String) : Prop :=
  ∃ r, m.units[name]? = some r ∧ r.watchdogTriggered = true

variable {m m' : Manager W} {v : String} {us : List String}

omit [Kernel W] in
theorem WatchdogMarked.starts (h : WatchdogMarked m name)
    (hsta : Starts (·.watchdogTriggered = true) v m m') : WatchdogMarked m' name := by
  obtain ⟨r, hr, ht⟩ := h
  by_cases hname : name = v
  · subst hname
    exact hsta.started r hr ht
  · exact ⟨r, by rw [hsta.others name hname, hr], ht⟩

omit [Kernel W] in
private theorem starts_markWatchdog (m : Manager W) (name : String) :
    Starts (·.watchdogTriggered = true) name m (m.update name markWatchdog) :=
  Starts.update markWatchdog fun _ _ => rfl

private theorem starts_abortForWatchdog (m : Manager W) (name : String) :
    Starts (·.watchdogTriggered = true) name m (m.abortForWatchdog name) := by
  refine Starts.signalAndWait ?_ m _ _ _
  intro name r res nf cg w h
  rw [watchdogTriggered_finishTimeoutFailure, h]

omit [Kernel W] in
private theorem foldl_starts_others (s : Manager W → String → Manager W)
    (hsp : ∀ m name, Starts ok name m (s m name)) (hname : name ∉ us) :
    (us.foldl s m).units[name]? = m.units[name]? := by
  induction us generalizing m with
  | nil => rfl
  | cons a l ih =>
    rw [foldl_cons, ih (fun h => hname (mem_cons_of_mem _ h)),
      (hsp m a).others name (fun h => hname (h ▸ mem_cons_self ..))]

omit [Kernel W] in
theorem WatchdogMarked.foldl (h : WatchdogMarked m name) (s : Manager W → String → Manager W)
    (hsp : ∀ m name, Starts (·.watchdogTriggered = true) name m (s m name)) :
    WatchdogMarked (us.foldl s m) name := by
  induction us generalizing m with
  | nil => exact h
  | cons a l ih => exact ih (h.starts (hsp m a))

omit [Kernel W] in
private theorem watchdogMarked_foldl (hname : name ∈ us) {r : UnitRecord}
    (hr : m.units[name]? = some r) :
    WatchdogMarked (us.foldl (fun m name => m.update name markWatchdog) m) name := by
  induction us generalizing m r with
  | nil => cases hname
  | cons a l ih =>
    rw [foldl_cons]
    by_cases hfr : name = a
    · subst hfr
      refine WatchdogMarked.foldl ⟨markWatchdog r, ?_, rfl⟩ _ starts_markWatchdog
      rw [getElem?_update, if_pos rfl, hr, map_some]
    · refine ih ((mem_cons.mp hname).resolve_left hfr) (r := r) ?_
      rw [getElem?_update, if_neg (Ne.symm hfr), hr]

section

variable {now : Int} (hclock : (Kernel.monotonic m.world).1 = some now)

include hclock

private theorem expireWatchdogs_eq :
    let expired := (m.ask Kernel.monotonic).2.unitNames.filter
      (m.units[·]?.any (watchdogExpired now))
    m.expireWatchdogs = expired.foldl abortForWatchdog
      (expired.foldl (fun m name => m.update name markWatchdog) (m.ask Kernel.monotonic).2) := by
  have hask : (m.ask Kernel.monotonic).1 = some now := hclock
  simp only [expireWatchdogs, hask]
  rfl

private theorem expireWatchdogs_of_not_expired
    (h : m.units[name]?.any (watchdogExpired now) = false) :
    m.expireWatchdogs.units[name]? = m.units[name]? := by
  have hnot : name ∉ (m.ask Kernel.monotonic).2.unitNames.filter
      (m.units[·]?.any (watchdogExpired now)) := by
    intro hname
    rw [(mem_filter.mp hname).2] at h
    cases h
  rw [expireWatchdogs_eq hclock, foldl_starts_others _ starts_abortForWatchdog hnot,
    foldl_starts_others _ starts_markWatchdog hnot]
  rfl

private theorem watchdogMarked_expireWatchdogs {r : UnitRecord} (hr : m.units[name]? = some r)
    (h : watchdogExpired now r = true) : WatchdogMarked m.expireWatchdogs name := by
  have hmem : name ∈ (m.ask Kernel.monotonic).2.unitNames.filter
      (m.units[·]?.any (watchdogExpired now)) := by
    refine mem_filter.mpr ⟨(mem_unitNames _ name).mpr ⟨r, hr⟩, ?_⟩
    rw [hr, any_some, h]
  have hr : (m.ask Kernel.monotonic).2.units[name]? = some r := hr
  rw [expireWatchdogs_eq hclock]
  exact (watchdogMarked_foldl hmem hr).foldl _ starts_abortForWatchdog

private theorem exists_passed_iff :
    (∃ (name : String) (r : UnitRecord), m.expireWatchdogs.units[name]? = some r ∧
        watchdogRemaining now r = some 0) ↔
      ∃ (name : String) (r : UnitRecord), m.units[name]? = some r ∧
        watchdogRemaining now r = some 0 ∧ watchdogExpired now r = false := by
  constructor
  · rintro ⟨name, r, hr, hzr⟩
    cases hexp : m.units[name]?.any (watchdogExpired now) with
    | true =>
      obtain ⟨r', hr', hexp⟩ := (Option.any_eq_true ..).mp hexp
      obtain ⟨ma, hmarked, h⟩ := watchdogMarked_expireWatchdogs hclock hr' hexp
      cases hr.symm.trans hmarked
      rw [watchdogRemaining, if_pos h] at hzr
      cases hzr
    | false =>
      rw [expireWatchdogs_of_not_expired hclock hexp] at hr
      rw [hr, any_some] at hexp
      exact ⟨name, r, hr, hzr, hexp⟩
  · rintro ⟨name, r, hr, hzr, hexp⟩
    refine ⟨name, r, ?_, hzr⟩
    rw [expireWatchdogs_of_not_expired hclock (by rw [hr, any_some, hexp]), hr]

end

end

/-- Right after expiry the poll timeout agrees with it exactly when no unit has a deadline that
only the poll timeout counts as passed. -/
theorem poll_agrees_iff [Kernel W] (m : Manager W) (now : Int)
    (hclock : (Kernel.monotonic m.world).1 = some now) (hnow : -(2 ^ 63) ≤ now ∧ now ≤ i64Max) :
    PollAgrees m.expireWatchdogs now ↔
      ∀ (name : String) (r : UnitRecord), m.units[name]? = some r → ¬Overlooked now r := by
  have hzr : m.expireWatchdogs.nextPollTimeoutAt now = 0 ↔
      ∃ (name : String) (r : UnitRecord), m.units[name]? = some r ∧ Overlooked now r := by
    simp only [nextPollTimeoutAt_eq_zero_iff, exists_passed_iff hclock,
      overlooked_iff hnow.1 hnow.2]
  constructor
  · intro h name r hr hoverlooked
    exact h.awake (hzr.mpr ⟨name, r, hr, hoverlooked⟩)
  intro h
  refine ⟨?_, (nextPollTimeoutAt_spec _ now).1, ?_⟩
  · intro hspins
    obtain ⟨name, r, hr, hoverlooked⟩ := hzr.mp hspins
    exact h name r hr hoverlooked
  · exact fun name r deadline hr hwatched => nextPollTimeoutAt_lt hnow.1 hr hwatched

/-- A service with a watchdog of thirty seconds whose main process exits; a `WATCHDOG=1` of it that
is already queued comes after the exit and sets the timestamp again. Then the clock moves on. -/
def exitedService (clock : Int) : Manager Script :=
  let running : UnitRecord :=
    { loaded := .service {} { watchdogSec := some (seconds 30) }
      state := .active
      activePid := some 7
      watchdogTimestampNs := some 0 }
  let m : Manager Script := { Manager.new {} {} none with
    units := (∅ : Std.ExtTreeMap String UnitRecord).insert "watched.service" running }
  let m := run step m [.childExit ⟨7, cldExited, 0⟩,
    .notify ⟨"watched.service", 7, { watchdog := true }⟩]
  { m with world := { m.world with clock } }

theorem poll_agrees_iff_exited : PollAgrees (exitedService 0).expireWatchdogs 0 := by
  refine (poll_agrees_iff (exitedService 0) 0 rfl (by decide)).mpr ?_
  intro name r hr hoverlooked
  have hkeys : (exitedService 0).units.keys = ["watched.service"] := by rfl
  have hname : name ∈ (exitedService 0).units.keys := by
    rw [Std.ExtTreeMap.mem_keys, Std.ExtTreeMap.mem_iff_isSome_getElem?, hr]
    rfl
  rw [hkeys, List.mem_singleton] at hname
  subst hname
  obtain ⟨-, interval, last, hinterval, hlast, hpassed⟩ := hoverlooked
  cases hr
  cases hinterval
  cases hlast
  exact absurd hpassed (by decide)

/-- The timestamp is set although there is no process, so the main loop spins. -/
theorem exited_service_spins :
    (Kernel.monotonic (exitedService 30000000000).world).1 = some 30000000000 ∧
      (exitedService 30000000000).expireWatchdogs.nextPollTimeoutMs = 0 := by
  decide

end Rustd.Manager
