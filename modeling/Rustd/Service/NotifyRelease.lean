import Rustd.Service.NotifyDelivery

/-!
# Release of deferred notifications

`register_pid` goes through the deferred datagrams and releases those that the new main process
sent itself; `replace_pid` releases none. The test on arrival, `authorized_unit`, accepts more: a
main process under its present PID, and with `NotifyAccess=exec` or `all` its descendants. What
follows is when the two agree, for a process tree that does not change.
-/

namespace Rustd.Service

open Base UnitFile List Std.ExtTreeMap

variable {W : Type} [Kernel W]

def acceptsHelpers (access : NotifyAccess) : Bool := access == .exec || access == .all

/-- No held message could be delivered. -/
def NoneBehind (w : W) (n : NotifyState) : Prop :=
  ∀ d ∈ n.deferred, authorizedUnit w n d.1 = none

def NotifyCall.Registers : NotifyCall W → Prop
  | .registerPid .. | .replacePid .. => True
  | _ => False

def NotifyCall.Under (w : W) : NotifyCall W → Prop
  | .arrives w' .. => w' = w
  | _ => True

/-- Nothing is put off that the call makes acceptable and does not release: a datagram of a
permitted descendant of the registered process, or one of a process that becomes the main process
in place of another, or of a permitted descendant of that. -/
def Released (w : W) (n : NotifyState) : NotifyCall W → Prop
  | .registerPid pid _ access => 0 < pid → acceptsHelpers access = true →
    ∀ d ∈ n.deferred, d.1 ≠ pid → isDescendantOf w d.1 pid = false
  | .replacePid oldPid newPid => oldPid ≠ newPid → 0 < newPid →
    ∀ registration, n.registrations[oldPid]? = some registration → ∀ d ∈ n.deferred,
      d.1 ≠ newPid ∧ (acceptsHelpers registration.access = true →
        isDescendantOf w d.1 newPid = false)
  | _ => True

/-- Who does not speak for a unit: a process that is not registered and does not descend from a
main process with helpers. -/
theorem authorizedUnit_eq_none_iff (w : W) (n : NotifyState) (pid : Int) :
    authorizedUnit w n pid = none ↔ n.registrations[pid]? = none ∧
      ∀ (key : Int) (registration : Registration), n.registrations[key]? = some registration →
        acceptsHelpers registration.access = true →
        isDescendantOf w pid registration.mainPid = false := by
  have hwl : ∀ registration, registration ∈ n.walk w ↔
      ∃ key : Int, n.registrations[key]? = some registration := by
    intro registration
    simp only [NotifyState.walk, List.mem_map, mem_insertionSort, Prod.exists,
      mem_toList_iff_getElem?_eq_some, exists_eq_right]
  unfold authorizedUnit
  cases hpid : n.registrations[pid]? with
  | some registration => simp
  | none =>
    simp only [Option.map_eq_none_iff, find?_eq_none, hwl, acceptsHelpers, true_and,
      forall_exists_index, Bool.and_eq_true, not_and, Bool.not_eq_true]
    exact ⟨fun h key registration hkey => h registration key hkey,
      fun h registration key hkey => h key registration hkey⟩

variable {w : W} {n n' : NotifyState}

private theorem authorizedUnit_congr (w : W) (h : n'.registrations = n.registrations) (pid : Int) :
    authorizedUnit w n' pid = authorizedUnit w n pid := by
  unfold authorizedUnit NotifyState.walk
  rw [h]

private theorem noneBehind_of_subset (h : NoneBehind w n)
    (hreg : n'.registrations = n.registrations)
    (hdf : ∀ d ∈ n'.deferred, d ∈ n.deferred ∨ authorizedUnit w n d.1 = none) :
    NoneBehind w n' := by
  intro d hd
  rw [authorizedUnit_congr w hreg]
  rcases hdf d hd with hold | hnew
  · exact h d hold
  · exact hnew

private theorem noneBehind_receive (h : NoneBehind w n) (sp : Int) (msg : NotifyMessage) :
    NoneBehind w (n.receive w sp msg) := by
  unfold NotifyState.receive
  cases hunt : authorizedUnit w n sp with
  | some u => exact noneBehind_of_subset h rfl (fun d hd => .inl hd)
  | none =>
    refine noneBehind_of_subset h rfl (fun d hd => ?_)
    rcases mem_append.mp hd with hd | hd
    · left
      split at hd
      · exact mem_of_mem_drop hd
      · exact hd
    · obtain rfl := mem_singleton.mp hd
      exact .inr hunt

private theorem noneBehind_unregisterPid (h : NoneBehind w n) (pid : Int) :
    NoneBehind w (n.unregisterPid pid) := by
  intro d hd
  have hd' := (authorizedUnit_eq_none_iff w n d.1).mp (h d hd)
  rw [authorizedUnit_eq_none_iff]
  simp only [NotifyState.unregisterPid, getElem?_erase]
  constructor
  · split
    · rfl
    · exact hd'.1
  intro key reg hkey
  split at hkey
  · cases hkey
  · exact hd'.2 key reg hkey

/-- After a registration nothing is left behind exactly when no permitted descendant of the new
main process is waiting. -/
theorem noneBehind_registerPid_iff (h : NoneBehind w n) (pid : Int) (un : String)
    (ac : NotifyAccess) :
    NoneBehind w (n.registerPid pid un ac) ↔ Released w n (.registerPid pid un ac) := by
  unfold NotifyState.registerPid Released
  by_cases hsk : pid ≤ 0 ∨ ac = .none
  · rw [if_pos hsk]
    refine iff_of_true h (fun hpid hhp => ?_)
    rcases hsk with hsk | rfl
    · omega
    · cases hhp
  · rw [if_neg hsk]
    have hpid : 0 < pid := by omega
    simp only [NoneBehind, authorizedUnit_eq_none_iff, mem_filter, bne_iff_ne,
      Std.ExtTreeMap.getElem?_insert]
    constructor
    · intro hnn _ hhp d hd hother
      exact (hnn d ⟨hd, hother⟩).2 pid ⟨un, ac, pid⟩ (by simp) hhp
    rintro hrls d ⟨hd, hother⟩
    have hd' := (authorizedUnit_eq_none_iff w n d.1).mp (h d hd)
    refine ⟨?_, fun key reg hkey hhp => ?_⟩
    · rw [if_neg (by simpa using hother.symm)]
      exact hd'.1
    split at hkey
    · obtain rfl := Option.some.inj hkey
      exact hrls hpid hhp d hd hother
    · exact hd'.2 key reg hkey hhp

/-- After the replacement of a main process nothing is left behind exactly when neither the new
one nor a permitted descendant of it is waiting. -/
theorem noneBehind_replacePid_iff (h : NoneBehind w n) (o newPid : Int) :
    NoneBehind w (n.replacePid o newPid) ↔ Released w n (.replacePid o newPid) := by
  unfold NotifyState.replacePid Released
  by_cases hsk : o = newPid ∨ newPid ≤ 0
  · rw [if_pos hsk]
    refine iff_of_true h (fun hne hpid => ?_)
    rcases hsk with hsk | hsk
    · exact absurd hsk hne
    · omega
  · rw [if_neg hsk]
    have hne : o ≠ newPid := fun heq => hsk (.inl heq)
    have hpid : 0 < newPid := by omega
    cases hold : n.registrations[o]? with
    | none => exact iff_of_true h (fun _ _ reg hsome => by cases hold.symm.trans hsome)
    | some old =>
      simp only [NoneBehind, authorizedUnit_eq_none_iff, Std.ExtTreeMap.getElem?_insert,
        Std.ExtTreeMap.getElem?_erase]
      constructor
      · rintro hnn _ _ reg hsome d hd
        obtain rfl := Option.some.inj (hold.symm.trans hsome)
        obtain ⟨hu, hde⟩ := hnn d hd
        refine ⟨fun heq => ?_, fun hhp => ?_⟩
        · simp [heq] at hu
        · exact hde newPid { old with mainPid := newPid } (by simp) hhp
      · intro hrls d hd
        obtain ⟨hother, hde⟩ := hrls hne hpid old hold d hd
        have hd' := (authorizedUnit_eq_none_iff w n d.1).mp (h d hd)
        refine ⟨?_, fun key reg hkey hhp => ?_⟩
        · rw [if_neg (by simpa using hother.symm)]
          split
          · rfl
          · exact hd'.1
        split at hkey
        · obtain rfl := Option.some.inj hkey
          exact hde hhp
        · split at hkey
          · cases hkey
          · exact hd'.2 key reg hkey hhp

private theorem released_iff (n : NotifyState) (c : NotifyCall W) (h : NoneBehind w n) :
    (c.Registers → NoneBehind w (n.call c)) ↔ Released w n c := by
  cases c with
  | registerPid pid u a =>
    exact (true_imp_iff).trans (noneBehind_registerPid_iff h pid u a)
  | replacePid o ne =>
    exact (true_imp_iff).trans (noneBehind_replacePid_iff h o ne)
  | _ => exact iff_of_true (absurd · id) trivial

private theorem noneBehind_call (n : NotifyState) (c : NotifyCall W) (hud : c.Under w)
    (h : NoneBehind w n) (hcl : c.Registers → NoneBehind w (n.call c)) :
    NoneBehind w (n.call c) := by
  cases c with
  | arrives w' s m =>
    obtain rfl : w' = w := hud
    exact noneBehind_receive h s m
  | registerPid | replacePid => exact hcl trivial
  | unregisterPid pid => exact noneBehind_unregisterPid h pid
  | drainEvents => exact h

namespace Traced

/-- The datagrams of each sender are attributed in order of arrival, those that are put off
last. -/
structure InOrder (t : Traced) : Prop where
  sorted : ∀ pid, (t.out.filter (·.event.senderPid == pid)).Pairwise
    (fun a b => a.number < b.number)
  before : ∀ d ∈ t.out, ∀ h ∈ t.deferred, h.senderPid = d.event.senderPid → d.number < h.number

variable {t : Traced}

theorem InOrder.of_eq {t' : Traced} (h : t.InOrder) (hout : t'.out = t.out)
    (hdf : t'.deferred = t.deferred) : t'.InOrder := by
  constructor
  · rw [hout]
    exact h.sorted
  · rw [hout, hdf]
    exact h.before

theorem InOrder.receive {w : W} (h : t.InOrder) (hacc : t.Accounted) (hnn : NoneBehind w t.erase)
    (senderPid : Int) (m : NotifyMessage) : (t.receive w senderPid m).InOrder := by
  unfold Traced.receive
  cases hunt : authorizedUnit w t.erase senderPid with
  | some u =>
    have hwg : ∀ d ∈ t.deferred, d.senderPid ≠ senderPid := by
      intro d hd heq
      have hd' := hnn (d.senderPid, d.message) (List.mem_map.mpr ⟨d, hd, rfl⟩)
      rw [show (d.senderPid, d.message).1 = senderPid from heq, hunt] at hd'
      cases hd'
    constructor
    · intro pid
      simp only [out, ← append_assoc, filter_append]
      rw [← filter_append]
      refine pairwise_append.mpr ⟨h.sorted pid, ?_, fun a ha b hb => ?_⟩
      · exact (pairwise_singleton _ _).sublist filter_sublist
      · obtain rfl := mem_singleton.mp (mem_filter.mp hb).1
        exact hacc.out_lt a (mem_filter.mp ha).1
    · intro d hd held hhe hsnd
      simp only [out, ← append_assoc] at hd
      rcases mem_append.mp hd with hd | hd
      · exact h.before d hd held hhe hsnd
      · obtain rfl := mem_singleton.mp hd
        exact absurd hsnd (hwg held hhe)
  | none =>
    refine ⟨h.sorted, fun d hd held hhe hsnd => ?_⟩
    rcases mem_append.mp hhe with hhe | hhe
    · have hold : held ∈ t.deferred := by
        split at hhe
        · exact mem_of_mem_drop hhe
        · exact hhe
      exact h.before d hd held hold hsnd
    · obtain rfl := mem_singleton.mp hhe
      exact hacc.out_lt d hd

theorem InOrder.registerPid (h : t.InOrder) (hacc : t.Accounted) (pid : Int) (un : String)
    (ac : NotifyAccess) : (t.registerPid pid un ac).InOrder := by
  unfold Traced.registerPid
  split
  · exact h
  have hrls : ∀ d ∈ (t.deferred.filter (·.senderPid == pid)).map
      (fun h => (⟨h.number, false, ⟨un, h.senderPid, h.message⟩⟩ : Delivery)),
      ∃ h ∈ t.deferred, h.senderPid = pid ∧ d.number = h.number ∧ d.event.senderPid = pid := by
    intro d hd
    obtain ⟨held, hhe, rfl⟩ := List.mem_map.mp hd
    have hpid : held.senderPid = pid := by simpa using (mem_filter.mp hhe).2
    exact ⟨held, (mem_filter.mp hhe).1, hpid, rfl, hpid⟩
  constructor
  · intro s
    simp only [out, ← append_assoc, filter_append]
    rw [← filter_append]
    refine pairwise_append.mpr ⟨h.sorted s, ?_, fun a ha b hb => ?_⟩
    · apply List.Pairwise.filter
      exact pairwise_map.mpr (hacc.deferred_sorted.filter _)
    obtain ⟨ha, hsnd⟩ := mem_filter.mp ha
    obtain ⟨hb, hsnd'⟩ := mem_filter.mp hb
    obtain ⟨held, hhe, hpid, hn, hev⟩ := hrls b hb
    simp only [beq_iff_eq] at hsnd hsnd'
    rw [hn]
    exact h.before a ha held hhe (by rw [hpid, hsnd, ← hsnd', hev])
  · intro d hd held hhe hsnd
    obtain ⟨hhe, hother⟩ := mem_filter.mp hhe
    simp only [out, ← append_assoc] at hd
    rcases mem_append.mp hd with hd | hd
    · exact h.before d hd held hhe hsnd
    · obtain ⟨-, -, -, -, hev⟩ := hrls d hd
      simp [hsnd, hev] at hother

theorem InOrder.call {w : W} (h : t.InOrder) (hacc : t.Accounted) (hnn : NoneBehind w t.erase)
    (c : NotifyCall W) (hud : c.Under w) : (t.call c).InOrder := by
  cases c with
  | arrives w' s m =>
    obtain rfl : w' = w := hud
    exact h.receive hacc hnn s m
  | registerPid pid u a => exact h.registerPid hacc pid u a
  | replacePid | unregisterPid => exact h.of_eq rfl rfl
  | drainEvents => exact h.of_eq (append_nil _) rfl

private theorem inOrder_run (w : W) (t : Traced) (cs : List (NotifyCall W))
    (hud : ∀ c ∈ cs, c.Under w) (hacc : t.Accounted) (h : t.InOrder) (hnn : NoneBehind w t.erase)
    (hrls : AllSteps NotifyState.call (Released w) t.erase cs) :
    (run Traced.call t cs).InOrder := by
  induction cs generalizing t with
  | nil => exact h
  | cons c cs ih =>
    have hc : c.Under w := hud c mem_cons_self
    apply ih (t.call c) (fun c hc => hud c (mem_cons_of_mem _ hc)) (hacc.call c)
      (h.call hacc hnn c hc)
    · rw [erase_call]
      exact noneBehind_call t.erase c hc hnn ((released_iff t.erase c hnn).mpr hrls.1)
    · rw [erase_call]
      exact hrls.2

end Traced

/-- No registration leaves an acceptable datagram behind exactly when none finds one waiting
that it does not release; and then the datagrams of each sender are delivered in order of
arrival. -/
theorem none_behind_iff_released (w : W) (calls : List (NotifyCall W))
    (hunder : ∀ c ∈ calls, c.Under w) :
    (AllSteps NotifyState.call (fun n c => c.Registers → NoneBehind w (n.call c)) {} calls ↔
      AllSteps NotifyState.call (Released w) {} calls) ∧
    (AllSteps NotifyState.call (Released w) {} calls →
      ∀ pid, ((run Traced.call {} calls).out.filter (fun d => d.event.senderPid == pid)).Pairwise
        (fun a b => a.number < b.number)) := by
  have hnew : NoneBehind w {} := fun d hd => absurd hd not_mem_nil
  constructor
  · exact allSteps_iff_of_invariant (I := NoneBehind w) (D := NotifyCall.Under w)
      (fun n c _ h => released_iff n c h) (fun n c hc h hcl => noneBehind_call n c hc h hcl)
      {} calls hunder hnew
  intro hrls
  exact (Traced.inOrder_run w {} calls hunder Traced.accounted_new
    ⟨by simp [Traced.out], by simp [Traced.out]⟩ hnew hrls).sorted

/-- An early message of a main process that is registered afterwards. -/
theorem none_behind_early_ready :
    AllSteps NotifyState.call (fun n c => c.Registers → NoneBehind ({} : Script) (n.call c)) {}
      [.arrives ({} : Script) 10 { ready := true }, .registerPid 10 "a.service" .main,
        .drainEvents] := by
  refine (none_behind_iff_released ({} : Script) _ ?_).1.mpr ?_
  · simp [NotifyCall.Under]
  refine ⟨trivial, ?_, trivial, trivial⟩
  intro _ hhp
  cases hhp

/-- A main process announces its successor, whose own early message then stays behind: it is
delivered after a later one, when the successor is registered again. -/
theorem successor_left_behind :
    let n := run NotifyState.call {}
      [.registerPid 10 "a.service" .main, .arrives ({} : Script) 11 { ready := true },
        .replacePid 10 11]
    let t := run Traced.call {}
      [.registerPid 10 "a.service" .main, .arrives ({} : Script) 11 { ready := true },
        .replacePid 10 11, .arrives {} 11 { stopping := true }, .registerPid 11 "a.service" .main]
    n.deferred = [(11, { ready := true })] ∧
      authorizedUnit ({} : Script) n 11 = some "a.service" ∧
      t.out.map (fun d => (d.number, d.event.message)) =
        [(1, { stopping := true }), (0, { ready := true })] := by
  decide

end Rustd.Service
