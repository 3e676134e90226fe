import Rustd.Base.WindowLimit
import Rustd.Service.Record

/-!
# Start rate limit

Automatic restarts are limited by `StartLimitBurst=` and `StartLimitIntervalSec=`. Each request for
a restart reads and writes the window of the record, and the record may change in other ways between
two requests. The requests together are a window limiter whose counter saturates at the largest
`u32`, so the bounds hold for every burst below it.
-/

namespace Rustd.Service

open Base Jobs List Option

/-- A call of `automatic_restart_delay_at`. -/
structure RestartRequest where
  record : UnitRecord
  exit : ChildExit
  now : Int

namespace RestartRequest

variable (curve : Nat → Nat → Nat → Nat → Nat) (q : RestartRequest)

/-- Part of `automatic_restart_delay_at`, `src/manager.rs:2761`. -/
def burst : Nat := q.record.loaded.unitSection.startLimitBurst.getD 5

/-- Part of `automatic_restart_delay_at`, `src/manager.rs:2761`. -/
def interval : Nat :=
  q.record.loaded.unitSection.startLimitIntervalSec.getD (seconds 10)

def granted : Bool :=
  (automaticRestartDelayAt curve q.record q.exit q.now).1.isSome

def after : UnitRecord :=
  (automaticRestartDelayAt curve q.record q.exit q.now).2

/-- The request opens a window. -/
def opensWindow : Bool :=
  decide (q.record.startLimitWindowNs = 0 ∨
    nanosI64 q.interval ≤ saturatingSub q.now q.record.startLimitWindowNs)

structure Wanted (burst interval : Nat) (q : RestartRequest) : Prop where
  policy : ∃ s, q.record.loaded.service? = some s ∧
    restartRequested s q.exit q.record.serviceResult = true
  burst_eq : q.burst = burst
  interval_eq : q.interval = interval
  positive : 0 < q.now
  bounded : q.now ≤ i64Max

structure Follows (curve : Nat → Nat → Nat → Nat → Nat) (q next : RestartRequest) : Prop where
  later : q.now ≤ next.now
  window : next.record.startLimitWindowNs = (q.after curve).startLimitWindowNs
  count : next.record.startLimitCount = (q.after curve).startLimitCount

def window : Window :=
  ⟨q.record.startLimitWindowNs, q.record.startLimitCount⟩

def answer : Answer :=
  ⟨q.now, q.opensWindow, q.granted curve⟩

end RestartRequest

/-- Requests for restarts of one unit, from its first: all are wanted, and each finds the window
that the one before it left. -/
structure RestartRequests (curve : Nat → Nat → Nat → Nat → Nat) (burst interval : Nat)
    (requests : List RestartRequest) : Prop where
  wanted : ∀ q ∈ requests, q.Wanted burst interval
  follows : requests.IsChain (RestartRequest.Follows curve)
  fresh : ∀ q ∈ requests.head?, q.record.startLimitWindowNs = 0 ∧ q.record.startLimitCount = 0

/-- The bounds on the granted restarts: in one window, in a span shorter than the interval, and for
a request that comes one interval after the current window was opened. -/
structure StartLimited (curve : Nat → Nat → Nat → Nat → Nat) (burst interval : Nat)
    (requests : List RestartRequest) : Prop where
  window : ∀ stretch, stretch <:+: requests →
    (∀ q ∈ stretch.tail, q.opensWindow = false) →
      stretch.countP (RestartRequest.granted curve) ≤ burst
  span : ∀ stretch, stretch <:+: requests →
    (∀ q ∈ stretch, ∀ other ∈ stretch, other.now - q.now < interval) →
      stretch.countP (RestartRequest.granted curve) ≤ 2 * burst
  reopened : ∀ q ∈ requests, (interval : Int) ≤ q.now - q.record.startLimitWindowNs →
    q.granted curve = true

section

variable {curve : Nat → Nat → Nat → Nat → Nat} {burst interval : Nat} {q : RestartRequest}
  {requests rqs : List RestartRequest}

def startLimit (burst interval : Nat) : WindowLimit := ⟨nanosI64 interval, burst, u32Max⟩

private theorem saturatingSucc_eq_min (n : Nat) : saturatingSucc n = min u32Max (n + 1) := by
  unfold saturatingSucc
  split <;> omega

private theorem nanosI64_le_saturatingSub_iff (ns : Nat) (a b : Int) :
    nanosI64 ns ≤ saturatingSub a b ↔ nanosI64 ns ≤ a - b := by
  simp only [nanosI64, saturatingSub, i64Max]
  omega

namespace RestartRequest

private theorem Wanted.opensWindow_eq (h : q.Wanted burst interval) :
    q.opensWindow = (startLimit burst interval).opens q.window q.now := by
  rw [opensWindow, WindowLimit.opens, decide_eq_decide, h.interval_eq,
    nanosI64_le_saturatingSub_iff]
  rfl

/-- The record with the window that the request is counted in. -/
def opened (q : RestartRequest) : UnitRecord :=
  if q.opensWindow then { q.record with startLimitWindowNs := q.now, startLimitCount := 0 }
  else q.record

private theorem Wanted.current_eq (h : q.Wanted burst interval) :
    (startLimit burst interval).current q.window q.now =
      ⟨q.opened.startLimitWindowNs, q.opened.startLimitCount⟩ := by
  rw [WindowLimit.current, ← h.opensWindow_eq, opened]
  split <;> rfl

/-- The source under a limit that is in effect. -/
theorem Wanted.delayAt_eq (curve : Nat → Nat → Nat → Nat → Nat) (h : q.Wanted burst interval)
    (hbr : 0 < burst) (hir : interval ≠ 0) :
    ∃ delay, automaticRestartDelayAt curve q.record q.exit q.now =
      if burst < saturatingSucc q.opened.startLimitCount then
        (none, { q.opened with state := .failed, serviceResult := .startLimitHit })
      else (some delay, { q.opened with
        startLimitCount := saturatingSucc q.opened.startLimitCount
        restartCount := saturatingSucc q.record.restartCount }) := by
  obtain ⟨s, hs, hwnt⟩ := h.policy
  refine ⟨restartDelayFor curve s (saturatingSucc q.record.restartCount), ?_⟩
  have hlm : 0 < q.burst ∧ q.interval ≠ 0 := by
    rw [h.burst_eq, h.interval_eq]
    exact ⟨hbr, hir⟩
  rw [← h.burst_eq]
  simp only [automaticRestartDelayAt, hs, hwnt, Bool.not_true, Bool.false_eq_true, if_false]
  refine (if_pos hlm).trans ?_
  simp only [opened, opensWindow, decide_eq_true_eq]
  rfl

theorem Wanted.asks (curve : Nat → Nat → Nat → Nat → Nat) (h : q.Wanted burst interval)
    (hbr : 0 < burst) (hir : interval ≠ 0) :
    q.granted curve = (startLimit burst interval).grants q.window q.now ∧
      (⟨(q.after curve).startLimitWindowNs, (q.after curve).startLimitCount⟩ : Window) =
        (startLimit burst interval).ask q.window q.now := by
  obtain ⟨delay, hdl⟩ := h.delayAt_eq curve hbr hir
  have hnx : (startLimit burst interval).next ((startLimit burst interval).current q.window q.now)
      = saturatingSucc q.opened.startLimitCount := by
    rw [h.current_eq, saturatingSucc_eq_min]
    rfl
  by_cases hrf : burst < saturatingSucc q.opened.startLimitCount
  · have hgn : (startLimit burst interval).grants q.window q.now = false := by
      rw [Bool.eq_false_iff, ne_eq, WindowLimit.grants_iff, hnx]
      exact Nat.not_le.mpr hrf
    rw [WindowLimit.ask_of_not_grants hgn, h.current_eq, hgn]
    simp only [granted, after, hdl, if_pos hrf, isSome_none, true_and]
  · have hgn : (startLimit burst interval).grants q.window q.now = true := by
      rw [WindowLimit.grants_iff, hnx]
      exact Nat.not_lt.mp hrf
    rw [WindowLimit.ask, if_pos hgn, hnx, h.current_eq, hgn]
    simp only [granted, after, hdl, if_neg hrf, isSome_some, true_and]

end RestartRequest

private theorem answers_requests (hwn : ∀ q ∈ rqs, q.Wanted burst interval)
    (h : rqs.IsChain (RestartRequest.Follows curve)) (hbr : 0 < burst)
    (hir : interval ≠ 0) (w : Window) (hfr : ∀ q ∈ rqs.head?, q.window = w) :
    (startLimit burst interval).answers w (rqs.map RestartRequest.now) =
      rqs.map (RestartRequest.answer curve) := by
  induction rqs generalizing w with
  | nil => rfl
  | cons q l ih =>
    obtain rfl := hfr q rfl
    have hq := hwn q (mem_cons_self ..)
    obtain ⟨hgd, haf⟩ := hq.asks curve hbr hir
    have hrest := ih (fun q' hq' => hwn q' (mem_cons_of_mem _ hq')) h.tail
      ((startLimit burst interval).ask q.window q.now) (by
        intro n hnx
        obtain ⟨-, hw, hcn⟩ := isChain_cons.mp h |>.1 n hnx
        rw [← haf, RestartRequest.window, hw, hcn])
    simp only [map_cons, WindowLimit.answers, RestartRequest.answer, hrest, hq.opensWindow_eq, hgd]

private theorem exists_window (hwn : ∀ q ∈ rqs, q.Wanted burst interval)
    (h : rqs.IsChain (RestartRequest.Follows curve)) (hbr : 0 < burst) (hir : interval ≠ 0) :
    ∃ w, (startLimit burst interval).answers w (rqs.map RestartRequest.now) =
        rqs.map (RestartRequest.answer curve) ∧
      (startLimit burst interval).granted w (rqs.map RestartRequest.now) =
        rqs.countP (RestartRequest.granted curve) := by
  have hsome : ∃ w, ∀ q ∈ rqs.head?, RestartRequest.window q = w := by
    cases rqs with
    | nil => exact ⟨⟨0, 0⟩, by simp⟩
    | cons q l => exact ⟨q.window, by simp⟩
  obtain ⟨w, hfr⟩ := hsome
  have han := answers_requests hwn h hbr hir w hfr
  refine ⟨w, han, ?_⟩
  rw [WindowLimit.granted, han, countP_map]
  rfl

private theorem RestartRequest.Wanted.sub_lt {v : RestartRequest} (h : q.Wanted burst interval)
    (h' : v.Wanted burst interval) (hsp : v.now - q.now < interval) :
    v.now - q.now < nanosI64 interval := by
  have hpv := h.positive
  have hbo := h'.bounded
  simp only [nanosI64, i64Max] at hbo ⊢
  omega

private theorem RestartRequests.limited (h : RestartRequests curve burst interval requests)
    (hbr : 0 < burst) (hir : interval ≠ 0) (hcap : burst < u32Max) :
    StartLimited curve burst interval requests := by
  constructor
  · intro s hs hop
    have hfo := List.IsChain.infix h.follows hs
    obtain ⟨w, han, hgd⟩ := exists_window (fun q hq => h.wanted q (hs.subset hq)) hfo hbr hir
    rw [← hgd]
    refine WindowLimit.granted_le hcap ?_
    rw [han, ← map_tail]
    intro a ha
    obtain ⟨q, hq, rfl⟩ := List.mem_map.mp ha
    exact hop q hq
  · intro s hs hsp
    have hwn : ∀ q ∈ s, q.Wanted burst interval := fun q hq => h.wanted q (hs.subset hq)
    have hfo := List.IsChain.infix h.follows hs
    obtain ⟨w, -, hgd⟩ := exists_window hwn hfo hbr hir
    rw [← hgd]
    refine le_trans (Nat.le_add_right _ _) (WindowLimit.granted_le_two_mul hcap ?_ ?_)
    · intro now hnow
      obtain ⟨q, hq, rfl⟩ := List.mem_map.mp hnow
      exact Int.ne_of_gt (hwn q hq).positive
    intro a ha b hb
    obtain ⟨q, hq, rfl⟩ := List.mem_map.mp ha
    obtain ⟨v, hother, rfl⟩ := List.mem_map.mp hb
    exact (hwn q hq).sub_lt (hwn v hother) (hsp q hq v hother)
  · intro q hq hla
    have hwn := h.wanted q hq
    rw [(hwn.asks curve hbr hir).1]
    refine WindowLimit.grants_of_opens hbr (decide_eq_true (.inr ?_))
    exact Int.le_trans (Int.min_le_right ..) hla

end

section

variable (curve : Nat → Nat → Nat → Nat → Nat) (burst interval : Nat)

def restartedRecord : UnitRecord where
  loaded := .service { startLimitBurst := some burst, startLimitIntervalSec := some interval }
    { restart := .always }

def askAgain : Nat → UnitRecord → List RestartRequest
  | 0, _ => []
  | n + 1, r =>
    let q : RestartRequest := ⟨r, ⟨1, cldExited, 1⟩, 1⟩
    q :: askAgain n (q.after curve)

variable {curve burst interval} {r : UnitRecord}

private theorem length_askAgain (n : Nat) : (askAgain curve n r).length = n := by
  induction n generalizing r with
  | zero => rfl
  | succ n ih => rw [askAgain, length_cons, ih]

private theorem wanted_of_loaded (e : ChildExit)
    (h : r.loaded = (restartedRecord burst interval).loaded) :
    RestartRequest.Wanted burst interval ⟨r, e, 1⟩ where
  policy := ⟨{ restart := .always }, by rw [h]; rfl, rfl⟩
  burst_eq := by rw [RestartRequest.burst, h]; rfl
  interval_eq := by rw [RestartRequest.interval, h]; rfl
  positive := Int.one_pos
  bounded := (by decide : (1 : Int) ≤ i64Max)

theorem RestartRequest.Wanted.loaded_after {q : RestartRequest} (h : q.Wanted burst interval)
    (hbr : 0 < burst) (hir : interval ≠ 0) : (q.after curve).loaded = q.record.loaded := by
  obtain ⟨d, hdl⟩ := h.delayAt_eq curve hbr hir
  have hopn : q.opened.loaded = q.record.loaded := by
    unfold RestartRequest.opened
    split <;> rfl
  rw [RestartRequest.after, hdl]
  split <;> exact hopn

private theorem wanted_askAgain (hbr : 0 < burst) (hir : interval ≠ 0)
    (h : r.loaded = (restartedRecord burst interval).loaded) (n : Nat) :
    ∀ q ∈ askAgain curve n r, q.Wanted burst interval ∧ q.now = 1 := by
  induction n generalizing r with
  | zero => simp [askAgain]
  | succ n ih =>
    have hwn := wanted_of_loaded ⟨1, cldExited, 1⟩ h
    intro q hq
    rcases mem_cons.mp hq with rfl | hq
    · exact ⟨hwn, rfl⟩
    · exact ih ((hwn.loaded_after hbr hir).trans h) q hq

private theorem follows_askAgain (n : Nat) :
    (askAgain curve n r).IsChain (RestartRequest.Follows curve) := by
  induction n generalizing r with
  | zero => exact isChain_nil
  | succ n ih =>
    refine isChain_cons.mpr ⟨?_, ih⟩
    intro ne hnx
    cases n with
    | zero => cases hnx
    | succ n =>
      cases hnx
      exact ⟨Int.le_refl _, rfl, rfl⟩

private theorem requests_askAgain (hbr : 0 < burst) (hir : interval ≠ 0) (n : Nat) :
    RestartRequests curve burst interval (askAgain curve n (restartedRecord burst interval)) where
  wanted q hq := (wanted_askAgain hbr hir rfl n q hq).1
  follows := follows_askAgain n
  fresh q hq := by
    cases n with
    | zero => cases hq
    | succ n =>
      cases hq
      exact ⟨rfl, rfl⟩

private theorem granted_askAgain (hbr : 0 < burst) (hir : interval ≠ 0) (hcap : u32Max ≤ burst)
    (n : Nat) :
    (askAgain curve n (restartedRecord burst interval)).countP (RestartRequest.granted curve) =
      n := by
  have h : RestartRequests curve burst interval _ := requests_askAgain hbr hir n
  obtain ⟨w, -, hgd⟩ := exists_window h.wanted h.follows hbr hir
  rw [← hgd, WindowLimit.granted_of_cap_le hcap, length_map, length_askAgain]

private theorem opens_askAgain (hbr : 0 < burst) (hir : interval ≠ 0) (n : Nat) :
    ∀ q ∈ (askAgain curve n (restartedRecord burst interval)).tail, q.opensWindow = false := by
  have h : RestartRequests curve burst interval _ := requests_askAgain hbr hir n
  have han := answers_requests h.wanted h.follows hbr hir ⟨0, 0⟩ (by
    intro q hq
    obtain ⟨hw, hcn⟩ := h.fresh q hq
    rw [RestartRequest.window, hw, hcn])
  have hne : ∀ a ∈ ((startLimit burst interval).answers ⟨0, 0⟩
      ((askAgain curve n (restartedRecord burst interval)).map RestartRequest.now)).tail,
      a.opened = false := by
    cases n with
    | zero => simp [askAgain, WindowLimit.answers]
    | succ n =>
      have hop : (startLimit burst interval).opens ⟨0, 0⟩ 1 = true := decide_eq_true (.inl rfl)
      have hstr : ((startLimit burst interval).ask ⟨0, 0⟩ 1).start = 1 := by
        rw [WindowLimit.start_ask, WindowLimit.current, if_pos hop]
      refine WindowLimit.not_opened_of_near (by rw [hstr]; decide) ?_
      rw [hstr]
      intro now hnow
      obtain ⟨q, hq, rfl⟩ := List.mem_map.mp hnow
      rw [(wanted_askAgain hbr hir rfl (n + 1) q (mem_cons_of_mem _ hq)).2]
      simp only [startLimit, nanosI64, i64Max]
      omega
  rw [han, ← map_tail] at hne
  exact fun q hq => hne _ (List.mem_map_of_mem hq)

/-- The rate limit holds for every unit with the given limit exactly when the burst is below the
largest `u32`. -/
theorem start_limited_iff (curve : Nat → Nat → Nat → Nat → Nat) (burst interval : Nat)
    (hburst : 0 < burst) (hrange : burst ≤ u32Max) (hinterval : interval ≠ 0) :
    (∀ requests, RestartRequests curve burst interval requests →
      StartLimited curve burst interval requests) ↔ burst < u32Max := by
  constructor
  · intro hli
    rcases Nat.lt_or_eq_of_le hrange with hlt | heq
    · exact hlt
    have hwi := (hli _ (requests_askAgain hburst hinterval (burst + 1))).window _
      infix_rfl (opens_askAgain hburst hinterval (burst + 1))
    rw [granted_askAgain hburst hinterval (Nat.le_of_eq heq.symm)] at hwi
    exact absurd hwi (Nat.not_succ_le_self burst)
  · intro hcap requests h
    exact h.limited hburst hinterval hcap

theorem start_limited_iff_default :
    StartLimited (fun _ _ _ _ => 0) 5 (seconds 10)
      (askAgain (fun _ _ _ _ => 0) 6 (restartedRecord 5 (seconds 10))) :=
  (start_limited_iff (fun _ _ _ _ => 0) 5 (seconds 10) (by decide) (by decide)
    (by decide)).mpr (by decide) _ (requests_askAgain (by decide) (by decide) 6)

/-- More restarts than the burst of one unit, all in one window of ten seconds. -/
theorem unlimited_at_largest_burst :
    RestartRequests (fun _ _ _ _ => 0) u32Max (seconds 10)
        (askAgain (fun _ _ _ _ => 0) (u32Max + 1) (restartedRecord u32Max (seconds 10))) ∧
      (∀ q ∈ (askAgain (fun _ _ _ _ => 0) (u32Max + 1) (restartedRecord u32Max (seconds 10))).tail,
        q.opensWindow = false) ∧
      (askAgain (fun _ _ _ _ => 0) (u32Max + 1) (restartedRecord u32Max (seconds 10))).countP
        (RestartRequest.granted fun _ _ _ _ => 0) = u32Max + 1 :=
  ⟨requests_askAgain (by decide) (by decide) _, opens_askAgain (by decide) (by decide) _,
    granted_askAgain (by decide) (by decide) (Nat.le_refl _) _⟩

end
end Rustd.Service
