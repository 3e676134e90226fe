import Rustd.Service.Notify

/-!
# Delivery of notifications

What becomes of the datagrams that arrive at the notification socket, over any sequence of
arrivals, registrations and drains. A datagram is attributed on arrival, or put off until its
sender is registered as a main process. To follow single datagrams the state is copied with a
number on each, in order of arrival; forgetting the numbers gives back the state of the server.
-/

namespace Rustd.Service

open Base UnitFile List

/-- `NOTIFY_EVENTS_PER_WAKE` of `src/notify.rs:18`. -/
def notifyEventsPerWake : Nat := 256

/-- What one read of the socket gives. -/
inductive Reception where
  | datagram (senderPid : Int) (message : NotifyMessage)
  | nothing
  | failed
  deriving DecidableEq

/-- Part of `NotifyIoHandler::on_io`, `src/notify.rs:240`. -/
inductive NotifyCall (W : Type) where
  | arrives (w : W) (senderPid : Int) (message : NotifyMessage)
  | registerPid (pid : Int) (unitName : String) (access : NotifyAccess)
  | replacePid (oldPid newPid : Int)
  | unregisterPid (pid : Int)
  | drainEvents

variable {W : Type} [Kernel W]

namespace NotifyState

/-- The reads of one wake, with the number of reads left. -/
def onIo (n : NotifyState) : Nat → List (W × Reception) → NotifyState
  | budget + 1, (w, .datagram senderPid message) :: rest =>
    (n.receive w senderPid message).onIo budget rest
  | _, _ => n

/-- Part of `NotifyIoHandler::on_io`, `src/notify.rs:240`. -/
def call (n : NotifyState) : NotifyCall W → NotifyState
  | .arrives w senderPid message => n.receive w senderPid message
  | .registerPid pid unitName access => n.registerPid pid unitName access
  | .replacePid oldPid newPid => n.replacePid oldPid newPid
  | .unregisterPid pid => n.unregisterPid pid
  | .drainEvents => n.drainEvents.2

def drained (n : NotifyState) : List (NotifyCall W) → List NotifyEvent
  | [] => []
  | .drainEvents :: rest => n.drainEvents.1 ++ (n.call (.drainEvents : NotifyCall W)).drained rest
  | c :: rest => (n.call c).drained rest

end NotifyState

def taken : Nat → List (W × Reception) → List (NotifyCall W)
  | budget + 1, (w, .datagram senderPid message) :: rest =>
    .arrives w senderPid message :: taken budget rest
  | _, _ => []

omit [Kernel W] in
/-- One wake takes at most as many datagrams as it may. -/
theorem length_taken_le (budget : Nat) (r : List (W × Reception)) :
    (taken budget r).length ≤ budget := by
  fun_induction taken budget r with
  | case1 => simp; omega
  | case2 => simp

/-- The loop of `on_io` is a run of the calls for the datagrams that it takes. -/
theorem onIo_eq_run (n : NotifyState) (b : Nat) (r : List (W × Reception)) :
    n.onIo b r = run NotifyState.call n (taken b r) := by
  fun_induction NotifyState.onIo n b r with
  | case1 n b w s m l ih =>
    rw [taken, run_cons]
    exact ih
  | case2 n b r h =>
    rw [taken]
    · rfl
    · exact h

def arrivals : List (NotifyCall W) → List (Int × NotifyMessage)
  | [] => []
  | .arrives _ senderPid message :: rest => (senderPid, message) :: arrivals rest
  | _ :: rest => arrivals rest

structure Delivery where
  number : Nat
  direct : Bool
  event : NotifyEvent

structure Held where
  number : Nat
  senderPid : Int
  message : NotifyMessage

/-- The state of the server with numbered datagrams, and what became of the others: those that
were drained, and those that were dropped with the length of the deferred list at the time. -/
structure Traced where
  registrations : Std.ExtTreeMap Int Registration := ∅
  pending : List Delivery := []
  deferred : List Held := []
  received : List (Int × NotifyMessage) := []
  delivered : List Delivery := []
  evicted : List (Nat × Nat) := []

namespace Traced

def erase (t : Traced) : NotifyState :=
  { registrations := t.registrations
    pending := t.pending.map Delivery.event
    deferred := t.deferred.map (fun h => (h.senderPid, h.message)) }

def out (t : Traced) : List Delivery := t.delivered ++ t.pending

/-- `NotifyState.receive` with numbers. -/
def receive (t : Traced) (w : W) (senderPid : Int) (message : NotifyMessage) : Traced :=
  match authorizedUnit w t.erase senderPid with
  | some unitName =>
    { t with
      received := t.received ++ [(senderPid, message)]
      pending := t.pending ++ [⟨t.received.length, true, ⟨unitName, senderPid, message⟩⟩] }
  | none =>
    let full := t.deferred.length = deferredNotifyLimit
    { t with
      received := t.received ++ [(senderPid, message)]
      deferred := (if full then t.deferred.drop 1 else t.deferred) ++
        [⟨t.received.length, senderPid, message⟩]
      evicted := t.evicted ++ if full then
        (t.deferred.take 1).map (fun h => (h.number, t.deferred.length)) else [] }

/-- `NotifyState.registerPid` with numbers. -/
def registerPid (t : Traced) (pid : Int) (unitName : String) (access : NotifyAccess) : Traced :=
  if pid ≤ 0 ∨ access = .none then t
  else
    { t with
      registrations := t.registrations.insert pid ⟨unitName, access, pid⟩
      pending := t.pending ++ (t.deferred.filter (·.senderPid == pid)).map
        (fun h => ⟨h.number, false, ⟨unitName, h.senderPid, h.message⟩⟩)
      deferred := t.deferred.filter (·.senderPid != pid) }

def call (t : Traced) : NotifyCall W → Traced
  | .arrives w senderPid message => t.receive w senderPid message
  | .registerPid pid unitName access => t.registerPid pid unitName access
  | .replacePid oldPid newPid =>
    { t with registrations := (t.erase.replacePid oldPid newPid).registrations }
  | .unregisterPid pid => { t with registrations := t.registrations.erase pid }
  | .drainEvents => { t with pending := [], delivered := t.delivered ++ t.pending }

variable (t : Traced) (calls cs : List (NotifyCall W))

private theorem erase_registerPid (pid : Int) (un : String) (access : NotifyAccess) :
    (t.registerPid pid un access).erase = t.erase.registerPid pid un access := by
  unfold registerPid NotifyState.registerPid
  split
  · rfl
  · simp [erase, List.filter_map, Function.comp_def]

private theorem erase_receive (w : W) (s : Int) (message : NotifyMessage) :
    (t.receive w s message).erase = t.erase.receive w s message := by
  unfold receive NotifyState.receive
  cases authorizedUnit w t.erase s with
  | some n => simp [erase]
  | none =>
    by_cases hfu : t.deferred.length = deferredNotifyLimit
    · simp [erase, hfu]
    · simp [erase, hfu]

private theorem replacePid_deferred (n : NotifyState) (op np : Int) :
    n.replacePid op np = { n with registrations := (n.replacePid op np).registrations } := by
  unfold NotifyState.replacePid
  split
  · rfl
  · split <;> rfl

theorem erase_call (c : NotifyCall W) : (t.call c).erase = t.erase.call c := by
  cases c with
  | arrives w s m => exact erase_receive t w s m
  | registerPid pid n a => exact erase_registerPid t pid n a
  | replacePid o ne => exact (replacePid_deferred t.erase o ne).symm
  | unregisterPid | drainEvents => rfl

theorem erase_run : (run call t calls).erase = run NotifyState.call t.erase calls := by
  induction calls generalizing t with
  | nil => rfl
  | cons c calls ih => rw [run_cons, run_cons, ih, erase_call]

theorem delivered_run : (run call t calls).delivered.map Delivery.event =
      t.delivered.map Delivery.event ++ t.erase.drained calls := by
  induction calls generalizing t with
  | nil => simp [NotifyState.drained]
  | cons c calls ih =>
    rw [run_cons, ih, erase_call]
    cases c with
    | drainEvents => simp [call, NotifyState.drained, NotifyState.drainEvents, erase]
    | arrives w s m =>
      simp only [call, receive, NotifyState.drained]
      cases authorizedUnit w t.erase s <;> rfl
    | registerPid pid n a =>
      simp only [call, registerPid, NotifyState.drained]
      split <;> rfl
    | _ => rfl

theorem received_run : (run call t calls).received = t.received ++ arrivals calls := by
  induction calls generalizing t with
  | nil => simp [arrivals]
  | cons c calls ih =>
    rw [run_cons, ih]
    cases c with
    | arrives w s m =>
      simp only [call, receive, arrivals]
      cases authorizedUnit w t.erase s <;> simp
    | registerPid pid n a =>
      simp only [call, registerPid, arrivals]
      split <;> rfl
    | _ => rfl

/-- Every datagram is in one place: attributed, put off, or dropped from a full list. What is put
off is in order of arrival, and so is what was attributed on arrival and, for each sender, what
was attributed later. -/
structure Accounted (t : Traced) : Prop where
  numbers : (t.out.map Delivery.number ++ t.deferred.map Held.number ++
    t.evicted.map Prod.fst).Perm (List.range t.received.length)
  out_content : ∀ d ∈ t.out, t.received[d.number]? = some (d.event.senderPid, d.event.message)
  deferred_content : ∀ h ∈ t.deferred, t.received[h.number]? = some (h.senderPid, h.message)
  direct_sorted : (t.out.filter Delivery.direct).Pairwise (fun a b => a.number < b.number)
  released_sorted : ∀ pid, (t.out.filter
    (fun d => !d.direct && d.event.senderPid == pid)).Pairwise (fun a b => a.number < b.number)
  deferred_sorted : t.deferred.Pairwise (fun a b => a.number < b.number)
  released_before : ∀ d ∈ t.out, d.direct = false → ∀ h ∈ t.deferred,
    h.senderPid = d.event.senderPid → d.number < h.number
  bounded : t.deferred.length ≤ deferredNotifyLimit
  evicted_full : ∀ e ∈ t.evicted, e.2 = deferredNotifyLimit

variable {t t' : Traced}

theorem Accounted.of_eq (h : t.Accounted) (hout : t'.out = t.out)
    (hdf : t'.deferred = t.deferred) (hrcv : t'.received = t.received)
    (he : t'.evicted = t.evicted) : t'.Accounted := by
  constructor
  · rw [hout, hdf, hrcv, he]
    exact h.numbers
  · rw [hout, hrcv]
    exact h.out_content
  · rw [hdf, hrcv]
    exact h.deferred_content
  · rw [hout]
    exact h.direct_sorted
  · rw [hout]
    exact h.released_sorted
  · rw [hdf]
    exact h.deferred_sorted
  · rw [hout, hdf]
    exact h.released_before
  · rw [hdf]
    exact h.bounded
  · rw [he]
    exact h.evicted_full

theorem Accounted.out_lt (h : t.Accounted) (d : Delivery) (hd : d ∈ t.out) :
    d.number < t.received.length :=
  (List.getElem?_eq_some_iff.mp (h.out_content d hd)).1

private theorem Accounted.deferred_lt (h : t.Accounted) (d : Held) (hd : d ∈ t.deferred) :
    d.number < t.received.length :=
  (List.getElem?_eq_some_iff.mp (h.deferred_content d hd)).1

private theorem getElem?_concat {l : List (Int × NotifyMessage)} {k : Nat} {x : Int × NotifyMessage}
    (h : l[k]? = some x) (y : Int × NotifyMessage) : (l ++ [y])[k]? = some x := by
  rw [getElem?_append_left (List.getElem?_eq_some_iff.mp h).1, h]

theorem Accounted.attribute (h : t.Accounted) (un : String) (sp : Int) (msg : NotifyMessage) :
    Accounted { t with
      received := t.received ++ [(sp, msg)]
      pending := t.pending ++ [⟨t.received.length, true, ⟨un, sp, msg⟩⟩] } := by
  have hout : out { t with
      received := t.received ++ [(sp, msg)]
      pending := t.pending ++ [⟨t.received.length, true, ⟨un, sp, msg⟩⟩] } =
      t.out ++ [⟨t.received.length, true, ⟨un, sp, msg⟩⟩] := by
    simp [out]
  constructor
  · rw [hout, length_append, length_singleton, range_succ, perm_iff_count]
    intro k
    have hcn := h.numbers.count_eq k
    simp only [map_append, count_append, map_cons, map_nil] at hcn ⊢
    omega
  · rw [hout]
    intro d hd
    rcases mem_append.mp hd with hd | hd
    · exact getElem?_concat (h.out_content d hd) _
    · obtain rfl := mem_singleton.mp hd
      simp
  · exact fun d hd => getElem?_concat (h.deferred_content d hd) _
  · rw [hout, filter_append]
    refine pairwise_append.mpr ⟨h.direct_sorted, by simp, fun a ha b hb => ?_⟩
    obtain rfl := mem_singleton.mp (mem_filter.mp hb).1
    exact h.out_lt a (mem_filter.mp ha).1
  · intro pid
    rw [hout, filter_append]
    simpa using h.released_sorted pid
  · exact h.deferred_sorted
  · rw [hout]
    intro d hd hdrc
    rcases mem_append.mp hd with hd | hd
    · exact h.released_before d hd hdrc
    · obtain rfl := mem_singleton.mp hd
      exact Bool.noConfusion hdrc
  · exact h.bounded
  · exact h.evicted_full

/-- A datagram put off, with the oldest one dropped from a full list. -/
theorem Accounted.postpone (h : t.Accounted) (sp : Int) (msg : NotifyMessage) :
    Accounted { t with
      received := t.received ++ [(sp, msg)]
      deferred := (if t.deferred.length = deferredNotifyLimit then t.deferred.drop 1
        else t.deferred) ++ [⟨t.received.length, sp, msg⟩]
      evicted := t.evicted ++ if t.deferred.length = deferredNotifyLimit then
        (t.deferred.take 1).map (fun h => (h.number, t.deferred.length)) else [] } := by
  -- what stays of the list is a part of it in the same order
  have hkp : (if t.deferred.length = deferredNotifyLimit then t.deferred.drop 1
      else t.deferred).Sublist t.deferred := by
    split
    · exact drop_sublist 1 t.deferred
    · exact List.Sublist.refl _
  have hca : ∀ d ∈ (if t.deferred.length = deferredNotifyLimit then t.deferred.drop 1
      else t.deferred) ++ [⟨t.received.length, sp, msg⟩],
      d ∈ t.deferred ∨ d = ⟨t.received.length, sp, msg⟩ := by
    intro d hd
    rcases mem_append.mp hd with hd | hd
    · exact .inl (hkp.subset hd)
    · exact .inr (mem_singleton.mp hd)
  constructor
  · rw [length_append, length_singleton, range_succ, perm_iff_count]
    intro k
    have hcn := h.numbers.count_eq k
    have hsl : (t.deferred.map Held.number).count k =
        ((t.deferred.take 1).map Held.number).count k +
          ((t.deferred.drop 1).map Held.number).count k := by
      rw [← count_append, ← map_append, take_append_drop]
    have hdd :
        ((t.deferred.take 1).map (fun h => (h.number, t.deferred.length))).map Prod.fst =
        (t.deferred.take 1).map Held.number := List.map_map
    by_cases hfu : t.deferred.length = deferredNotifyLimit
    · simp only [out, if_pos hfu, map_append, count_append, hdd, map_cons, map_nil] at hcn ⊢
      omega
    simp only [out, hfu, if_false, map_append, count_append, map_cons, map_nil, count_nil] at hcn ⊢
    omega
  · exact fun d hd => getElem?_concat (h.out_content d hd) _
  · intro d hd
    rcases hca d hd with hd | rfl
    · exact getElem?_concat (h.deferred_content d hd) _
    · simp
  · exact h.direct_sorted
  · exact h.released_sorted
  · refine pairwise_append.mpr ⟨h.deferred_sorted.sublist hkp, by simp, fun a ha b hb => ?_⟩
    obtain rfl := mem_singleton.mp hb
    exact h.deferred_lt a (hkp.subset ha)
  · intro d hd hdrc h' hh' hsnd
    rcases hca h' hh' with hh' | rfl
    · exact h.released_before d hd hdrc h' hh' hsnd
    · exact h.out_lt d hd
  · have := h.bounded
    by_cases hfu : t.deferred.length = deferredNotifyLimit
    · simp only [hfu, if_true, length_append, length_drop, length_singleton]
      simp [deferredNotifyLimit]
    · simp only [hfu, if_false, length_append, length_singleton]
      omega
  · intro e he
    rcases mem_append.mp he with he | he
    · exact h.evicted_full e he
    split at he
    · next hfu =>
      obtain ⟨d, -, rfl⟩ := List.mem_map.mp he
      exact hfu
    · simp at he

/-- The datagrams of a sender are attributed when it is registered. -/
theorem Accounted.release (h : t.Accounted) (pid : Int) (un : String) :
    Accounted { t with
      pending := t.pending ++ (t.deferred.filter (·.senderPid == pid)).map
        (fun h => ⟨h.number, false, ⟨un, h.senderPid, h.message⟩⟩)
      deferred := t.deferred.filter (·.senderPid != pid) } := by
  let released : List Delivery := (t.deferred.filter (·.senderPid == pid)).map
    (fun h => ⟨h.number, false, ⟨un, h.senderPid, h.message⟩⟩)
  have hout : out { t with
      pending := t.pending ++ (t.deferred.filter (·.senderPid == pid)).map
        (fun h => ⟨h.number, false, ⟨un, h.senderPid, h.message⟩⟩)
      deferred := t.deferred.filter (·.senderPid != pid) } = t.out ++ released := by
    simp [out, released]
  have hrls : ∀ d ∈ released, ∃ h ∈ t.deferred, h.senderPid = pid ∧
      d = ⟨h.number, false, ⟨un, h.senderPid, h.message⟩⟩ := by
    intro d hd
    obtain ⟨h, hh, rfl⟩ := List.mem_map.mp hd
    exact ⟨h, (mem_filter.mp hh).1, by simpa using (mem_filter.mp hh).2, rfl⟩
  have hsome : released.Pairwise (fun a b => a.number < b.number) :=
    pairwise_map.mpr (h.deferred_sorted.filter _)
  constructor
  · rw [hout, perm_iff_count]
    intro k
    have hcn := h.numbers.count_eq k
    have hsl := ((filter_append_perm (fun h : Held => h.senderPid == pid)
      t.deferred).map Held.number).count_eq k
    have hnu : released.map Delivery.number =
        (t.deferred.filter (·.senderPid == pid)).map Held.number := List.map_map
    simp only [map_append, count_append, hnu, bne] at hcn hsl ⊢
    omega
  · rw [hout]
    intro d hd
    rcases mem_append.mp hd with hd | hd
    · exact h.out_content d hd
    · obtain ⟨h', hh', -, rfl⟩ := hrls d hd
      exact h.deferred_content h' hh'
  · exact fun d hd => h.deferred_content d (mem_filter.mp hd).1
  · rw [hout, filter_append]
    have hnn : released.filter Delivery.direct = [] := by
      rw [filter_eq_nil_iff]
      intro d hd
      obtain ⟨h', -, -, rfl⟩ := hrls d hd
      exact Bool.false_ne_true
    rw [hnn, append_nil]
    exact h.direct_sorted
  · intro sender
    rw [hout, filter_append]
    refine pairwise_append.mpr ⟨h.released_sorted sender, hsome.filter _, fun a ha b hb => ?_⟩
    obtain ⟨ha, hsnd⟩ := mem_filter.mp ha
    obtain ⟨hb, hsnd'⟩ := mem_filter.mp hb
    obtain ⟨h', hh', -, rfl⟩ := hrls b hb
    simp only [Bool.and_eq_true, Bool.not_eq_true', beq_iff_eq] at hsnd hsnd'
    exact h.released_before a ha hsnd.1 h' hh' (hsnd'.2.trans hsnd.2.symm)
  · exact h.deferred_sorted.filter _
  · rw [hout]
    intro d hd hdrc h' hh' hsnd
    obtain ⟨hh', hother⟩ := mem_filter.mp hh'
    rcases mem_append.mp hd with hd | hd
    · exact h.released_before d hd hdrc h' hh' hsnd
    · obtain ⟨h'', -, hpid, rfl⟩ := hrls d hd
      simp [hsnd, hpid] at hother
  · exact (length_filter_le _ _).trans h.bounded
  · exact h.evicted_full

theorem Accounted.call (h : t.Accounted) (c : NotifyCall W) : (t.call c).Accounted := by
  cases c with
  | arrives w s m =>
    simp only [Traced.call, receive]
    cases authorizedUnit w t.erase s with
    | some n => exact h.attribute n s m
    | none => exact h.postpone s m
  | registerPid pid n a =>
    simp only [Traced.call, registerPid]
    split
    · exact h
    · exact (h.release pid n).of_eq rfl rfl rfl rfl
  | replacePid | unregisterPid => exact h.of_eq rfl rfl rfl rfl
  | drainEvents => exact h.of_eq (append_nil _) rfl rfl rfl

theorem accounted_new : Accounted {} := by
  constructor <;> simp [out, deferredNotifyLimit]

private theorem accounted_run : (run Traced.call {} cs).Accounted :=
  run_preserves (I := Accounted) (fun _ c h => h.call c) {} cs accounted_new

end Traced

/-- Over any sequence of arrivals, registrations and drains no datagram is delivered twice, those
attributed on arrival are delivered in order of arrival, those of one sender that were put off
are released in order of arrival, the deferred list keeps to its limit, and whatever is neither
delivered nor waiting was dropped from a full deferred list. -/
theorem notifications_delivered_in_order (calls : List (NotifyCall W)) :
    let t := run Traced.call {} calls
    t.erase = run NotifyState.call {} calls ∧
    t.delivered.map Delivery.event = NotifyState.drained {} calls ∧
    t.received = arrivals calls ∧
    (∀ d ∈ t.delivered, t.received[d.number]? = some (d.event.senderPid, d.event.message)) ∧
    (t.delivered.map Delivery.number).Nodup ∧
    (∀ pid, (t.delivered.filter (fun d => d.direct && d.event.senderPid == pid)).Pairwise
      (fun a b => a.number < b.number)) ∧
    (∀ pid, (t.out.filter (fun d => !d.direct && d.event.senderPid == pid)).Pairwise
      (fun a b => a.number < b.number)) ∧
    (run NotifyState.call {} calls).deferred.length ≤ deferredNotifyLimit ∧
    ∀ n < (arrivals calls).length,
      n ∈ t.delivered.map Delivery.number ∨ n ∈ t.pending.map Delivery.number ∨
      n ∈ t.deferred.map Held.number ∨ (n, deferredNotifyLimit) ∈ t.evicted := by
  intro t
  have h : t.Accounted := Traced.accounted_run calls
  have her : t.erase = run NotifyState.call {} calls := Traced.erase_run {} calls
  have hrcv : t.received = arrivals calls := Traced.received_run {} calls
  have hde : t.delivered.Sublist t.out := sublist_append_left _ _
  refine ⟨her, Traced.delivered_run {} calls, hrcv,
    fun d hd => h.out_content d (hde.subset hd), ?_, fun pid => ?_,
    h.released_sorted, ?_, ?_⟩
  · have hnp := h.numbers.nodup_iff.mpr nodup_range
    exact (hnp.of_append_left.of_append_left).sublist (hde.map _)
  · have hsub : (t.delivered.filter (fun d => d.direct && d.event.senderPid == pid)).Sublist
        (t.out.filter Delivery.direct) := by
      have hdrc : (t.delivered.filter (fun d => d.direct && d.event.senderPid == pid)).Sublist
          (t.delivered.filter Delivery.direct) :=
        monotone_filter_right _ (fun _ hd => (Bool.and_eq_true_iff.mp hd).1)
      exact hdrc.trans (hde.filter _)
    exact h.direct_sorted.sublist hsub
  · rw [← her]
    simpa [Traced.erase] using h.bounded
  · intro n hnu
    have hmem : n ∈ t.out.map Delivery.number ++ t.deferred.map Held.number ++
        t.evicted.map Prod.fst :=
      h.numbers.mem_iff.mpr (mem_range.mpr (hrcv ▸ hnu))
    simp only [mem_append, Traced.out, map_append] at hmem
    rcases hmem with ((hmem | hmem) | hmem) | hmem
    · exact .inl hmem
    · exact .inr (.inl hmem)
    · exact .inr (.inr (.inl hmem))
    obtain ⟨⟨n', held⟩, he, rfl⟩ := List.mem_map.mp hmem
    have hfu : held = deferredNotifyLimit := h.evicted_full _ he
    exact .inr (.inr (.inr (hfu ▸ he)))

end Rustd.Service
