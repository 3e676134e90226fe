import Mathlib

/-!
# Rate limit by windows

A limiter grants a number of requests in a window and opens the next window when a request comes
at least one interval after the current one began. Its counter stays at a cap. A span shorter than
the interval meets at most two windows, which bounds the grants in it.
-/

namespace Rustd.Base

open List

/-- At most `burst` grants in each window of length `interval`, with a counter up to `cap`. -/
structure WindowLimit where
  interval : Int
  burst : Nat
  cap : Nat

structure Window where
  start : Int
  count : Nat

structure Answer where
  now : Int
  opened : Bool
  granted : Bool
  deriving DecidableEq

namespace WindowLimit

variable (l : WindowLimit) (w : Window) (now : Int)

def opens : Bool := decide (w.start = 0 ∨ l.interval ≤ now - w.start)

def current : Window := if l.opens w now then ⟨now, 0⟩ else w

def next : Nat := min l.cap (w.count + 1)

def grants : Bool := decide (l.next (l.current w now) ≤ l.burst)

def ask : Window :=
  if l.grants w now then ⟨(l.current w now).start, l.next (l.current w now)⟩ else l.current w now

def answers : Window → List Int → List Answer
  | _, [] => []
  | w, now :: rest => ⟨now, l.opens w now, l.grants w now⟩ :: answers (l.ask w now) rest

def granted (w : Window) (times : List Int) : Nat := (l.answers w times).countP Answer.granted

variable {l} {w : Window} {now : Int} {times : List Int}

theorem grants_iff : l.grants w now = true ↔ l.next (l.current w now) ≤ l.burst :=
  decide_eq_true_iff

private theorem granted_cons :
    l.granted w (now :: times) =
      l.granted (l.ask w now) times + if l.grants w now then 1 else 0 := by
  simp only [granted, answers, countP_cons]

theorem start_ask : (l.ask w now).start = (l.current w now).start := by
  unfold ask
  split <;> rfl

private theorem count_ask_of_grants (hcap : l.burst < l.cap) (h : l.grants w now = true) :
    (l.ask w now).count = (l.current w now).count + 1 ∧ (l.ask w now).count ≤ l.burst := by
  have hle := grants_iff.mp h
  simp only [ask, h, if_true]
  refine ⟨?_, hle⟩
  unfold next at hle ⊢
  omega

theorem ask_of_not_grants (h : l.grants w now = false) : l.ask w now = l.current w now := by
  simp [ask, h]

private theorem current_of_not_opens (h : l.opens w now = false) : l.current w now = w := by
  simp [current, h]

private theorem granted_add_count_le (hcap : l.burst < l.cap)
    (hopn : ∀ a ∈ l.answers w times, a.opened = false) :
    l.granted w times + w.count ≤ max l.burst w.count := by
  induction times generalizing w with
  | nil =>
    simp only [granted, answers, countP_nil]
    omega
  | cons now t ih =>
    have hst := current_of_not_opens (hopn _ (mem_cons_self ..))
    have hrest := ih (fun a ha => hopn a (mem_cons_of_mem _ ha))
    rw [granted_cons]
    cases h : l.grants w now with
    | false =>
      rw [ask_of_not_grants h, hst] at hrest ⊢
      simpa using hrest
    | true =>
      obtain ⟨hcn, hle⟩ := count_ask_of_grants hcap h
      rw [hst] at hcn
      simp only [if_true]
      omega

theorem granted_le (hcap : l.burst < l.cap)
    (hopn : ∀ a ∈ (l.answers w times).tail, a.opened = false) : l.granted w times ≤ l.burst := by
  cases times with
  | nil => simp [granted, answers]
  | cons now t =>
    have hrest : l.granted (l.ask w now) t + _ ≤ _ := granted_add_count_le hcap hopn
    rw [granted_cons]
    cases h : l.grants w now with
    | false =>
      simp only [Bool.false_eq_true, if_false]
      omega
    | true =>
      obtain ⟨hcn, hle⟩ := count_ask_of_grants hcap h
      simp only [if_true]
      omega

theorem not_opened_of_near (hstr : w.start ≠ 0) (hne : ∀ now ∈ times, now - w.start < l.interval) :
    ∀ a ∈ l.answers w times, a.opened = false := by
  induction times generalizing w with
  | nil => simp [answers]
  | cons now t ih =>
    have hst : l.opens w now = false := by
      have hhd := hne now (mem_cons_self ..)
      simp only [opens, decide_eq_false_iff_not, not_or]
      exact ⟨hstr, Int.not_le.mpr hhd⟩
    have hkp : (l.ask w now).start = w.start := by rw [start_ask, current_of_not_opens hst]
    intro a ha
    rcases mem_cons.mp ha with rfl | ha
    · exact hst
    refine ih ?_ ?_ a ha
    · rw [hkp]
      exact hstr
    · rw [hkp]
      exact fun now hnow => hne now (mem_cons_of_mem _ hnow)

/-- In a span shorter than the interval at most twice `burst` requests are granted: once a window
opens in it, no second one does. -/
theorem granted_le_two_mul (hcap : l.burst < l.cap) (hpv : ∀ now ∈ times, now ≠ 0)
    (hsp : ∀ a ∈ times, ∀ b ∈ times, b - a < l.interval) :
    l.granted w times + min w.count l.burst ≤ 2 * l.burst := by
  induction times generalizing w with
  | nil =>
    simp only [granted, answers, countP_nil]
    omega
  | cons now t ih =>
    have hnow := mem_cons_self (a := now) (l := t)
    cases hop : l.opens w now with
    | true =>
      have hcr : (l.ask w now).start = now := by simp [start_ask, current, hop]
      have hls : ∀ a ∈ l.answers (l.ask w now) t, a.opened = false := by
        refine not_opened_of_near ?_ ?_
        · rw [hcr]
          exact hpv now hnow
        · rw [hcr]
          exact fun b hb => hsp now hnow b (mem_cons_of_mem _ hb)
      have hwi : l.granted w (now :: t) ≤ l.burst := granted_le hcap hls
      omega
    | false =>
      have hst := current_of_not_opens hop
      have hrest := ih (w := l.ask w now) (fun a ha => hpv a (mem_cons_of_mem _ ha))
        (fun a ha b hb => hsp a (mem_cons_of_mem _ ha) b (mem_cons_of_mem _ hb))
      rw [granted_cons]
      cases h : l.grants w now with
      | false =>
        rw [ask_of_not_grants h, hst] at hrest ⊢
        simpa using hrest
      | true =>
        obtain ⟨hcn, hle⟩ := count_ask_of_grants hcap h
        rw [hst] at hcn
        simp only [if_true]
        omega

theorem grants_of_opens (hbr : 0 < l.burst) (h : l.opens w now = true) : l.grants w now = true := by
  rw [grants_iff, current, if_pos h, next]
  exact Nat.le_trans (Nat.min_le_right ..) hbr

theorem granted_of_cap_le (hcap : l.cap ≤ l.burst) : l.granted w times = times.length := by
  induction times generalizing w with
  | nil => rfl
  | cons now t ih =>
    have hgn : l.grants w now = true := grants_iff.mpr (Nat.le_trans (Nat.min_le_left ..) hcap)
    rw [granted_cons, ih, hgn, if_pos rfl, length_cons]

end WindowLimit

end Rustd.Base
