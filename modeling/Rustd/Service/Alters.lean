import Rustd.Service.Phases

/-!
# What becomes of a record

`Alters move rise r r'` says what may have become of the record of a unit: its configuration
stays, a service makes lifecycle moves that `move` allows, a unit of another type comes up only
if `rise` holds, and a counted restart stays counted unless a reset is allowed. Each function of
the state machine has one lemma of this form.
-/

namespace Rustd.Service

open Base UnitFile
open DynamicUsers (DynamicUser)

def Phase.up (p : Phase) : Prop := p.state = .active ∨ p.state = .activating

def Label.raises : Label → Bool
  | .start | .starterAdopted | .mainExit _ => true
  | _ => false

variable {p : Phase} (cv : Nat → Nat → Nat → Nat → Nat) (r : UnitRecord) (e : ChildExit)
  (now : Int)

theorem Phase.not_up_of_settled (h : p.settled) : ¬p.up := by
  rintro (hup | hup) <;> rcases h with h | h <;> cases h.symm.trans hup

theorem Phase.not_up_of_deactivating (h : p.state = .deactivating) : ¬p.up := by
  rintro (hup | hup) <;> cases h.symm.trans hup

private theorem Move.up_of_up (h : Move l p q) (hl : l.raises = false) (hq : q.up) : p.up := by
  cases h with
  | start | starterAdopted | mainExit => cases hl
  | ready _ h | unready _ h | deadline _ h | pidFile _ _ h => exact .inr h
  | announce _ h | emptied _ _ _ h => exact h
  | stopTracked | watchdog => exact absurd hq (Phase.not_up_of_deactivating rfl)
  | stopUntracked _ _ _ h => exact absurd hq (Phase.not_up_of_settled h)
  | starterFailed _ _ _ h => exact absurd hq (Phase.not_up_of_settled (.inr h))
  | abandon | limit => exact absurd hq (Phase.not_up_of_settled (.inr rfl))
  | mainPid | starterWaiting | overdue | oom => exact hq
  | reset =>
    by_cases hp : p.state = .failed ∨ p.state = .maintenance
    · rcases hq with hq | hq <;> simp [hp] at hq
    rcases hq with hq | hq
    · exact .inl (by simpa [hp] using hq)
    · exact .inr (by simpa [hp] using hq)
  | oomExit =>
    by_cases hp : p.state = .active
    · exact .inl hp
    · rcases hq with hq | hq <;> simp [hp] at hq

def Restarted (r : UnitRecord) : Prop := 0 < r.restartCount

structure Alters (move : Label → Phase → Prop) (rise : Prop) (r r' : UnitRecord) : Prop where
  loaded : r'.loaded = r.loaded
  moves : r.loaded.isService = true → Moves move r.phase r'.phase
  rises : r.loaded.isService = false → r'.phase.up → rise ∨ r.phase.up
  counted : (∀ p, ¬move .reset p) → Restarted r → Restarted r'

section

variable {move : Label → Phase → Prop} {rise : Prop} {l : Label} {r r' r'' : UnitRecord}

namespace Alters

theorem refl (r : UnitRecord) : Alters move rise r r :=
  ⟨rfl, fun _ => Reaches.refl _, fun _ hup => .inr hup, fun _ h => h⟩

theorem trans (h : Alters move rise r r') (h' : Alters move rise r' r'') :
    Alters move rise r r'' := by
  refine ⟨h'.loaded.trans h.loaded, ?_, ?_, fun hrst hr => h'.counted hrst (h.counted hrst hr)⟩
  · intro hservice
    exact (h.moves hservice).trans (h'.moves (by rw [h.loaded]; exact hservice))
  intro hother hup
  rcases h'.rises (by rw [h.loaded]; exact hother) hup with hri | hup
  · exact .inl hri
  · exact h.rises hother hup

theorem up (h : Alters move rise r r')
    (hmo : ∀ l p, move l p → l.raises = true → ra) (hri : rise → ra)
    (hup : r'.phase.up) : ra ∨ r.phase.up := by
  cases hservice : r.loaded.isService with
  | false => exact (h.rises hservice hup).imp hri id
  | true =>
    have hin := (h.moves hservice).invariant (I := fun p => p.up → ra ∨ r.phase.up) ?_ .inr
    · exact hin hup
    intro l p q hp hl hmv hq
    cases hra : l.raises with
    | true => exact .inl (hmo l p hl hra)
    | false => exact hp (hmv.up_of_up hra hq)

theorem of_phase (hld : r'.loaded = r.loaded) (hph : r'.phase = r.phase)
    (hcn : r'.restartCount = r.restartCount) : Alters move rise r r' :=
  ⟨hld, fun _ => Reaches.of_eq hph, fun _ hup => .inr (hph ▸ hup),
    fun _ hr => by rwa [Restarted, hcn]⟩

theorem of_other (hs : r.loaded.service? = none) (hld : r'.loaded = r.loaded)
    (hup : r'.phase.up → rise ∨ r.phase.up) (hcn : r'.restartCount = r.restartCount) :
    Alters move rise r r' := by
  refine ⟨hld, ?_, fun _ => hup, fun _ hr => by rwa [Restarted, hcn]⟩
  intro hservice
  rw [LoadedUnit.isService, hs] at hservice
  cases hservice

end Alters

private theorem Makes.restarted (h : Makes l r r') (hr : Restarted r) : Restarted r' := by
  rwa [Restarted, show r'.restartCount = r.restartCount from congrArg Prod.snd h.1]

theorem Makes.alters_service (h : Makes l r r') (hservice : r.loaded.isService = true)
    (hmv : move l r.phase) : Alters move rise r r' := by
  refine ⟨h.loaded, fun _ => Reaches.single l hmv h.2, ?_, fun _ => h.restarted⟩
  intro hother
  cases hservice.symm.trans hother

theorem Makes.alters (h : Makes l r r') (hl : l.raises = false) (hmv : move l r.phase) :
    Alters move rise r r' :=
  ⟨h.loaded, fun _ => Reaches.single l hmv h.2, fun _ hup => .inr (h.2.up_of_up hl hup),
    fun _ => h.restarted⟩

private theorem Makes.alters_of_or (h : r' = r ∨ Makes l r r') (hl : l.raises = false)
    (hmv : Makes l r r' → move l r.phase) : Alters move rise r r' := by
  rcases h with rfl | h
  · exact Alters.refl _
  · exact h.alters hl (hmv h)

theorem alters_resetFailedRecord (r : UnitRecord) (hmv : move .reset r.phase) :
    Alters move rise r (resetFailedRecord r) := by
  have h : Move .reset r.phase (resetFailedRecord r).phase := .reset r.phase
  exact ⟨rfl, fun _ => Reaches.single .reset hmv h, fun _ hup => .inr (h.up_of_up rfl hup),
    fun hrst => absurd hmv (hrst _)⟩

end

section

variable {W : Type} [Kernel W] (u : String) (s : ServiceSection) (r : UnitRecord)
  (nf cg : Bool) (w : W)

variable {move : Label → Phase → Prop} {rise : Prop}

theorem alters_releaseIdleGate : Alters move rise r (releaseIdleGate r w).1 := by
  rw [releaseIdleGate_record]
  exact Alters.of_phase rfl rfl rfl

theorem alters_finishTimeoutFailure (res : ServiceResult) (hmv : move .abandon r.phase) :
    Alters move rise r (finishTimeoutFailure u r res nf cg w).1 := by
  cases hs : r.loaded.service? with
  | none =>
    simp only [finishTimeoutFailure, hs]
    exact Alters.of_other hs rfl (absurd · (Phase.not_up_of_settled (.inr rfl))) rfl
  | some s =>
    exact (finishTimeoutFailure_makes u s r nf cg w res hs).alters rfl hmv

theorem alters_deactivate (op : KillOperation) (hmv : move .stop r.phase) :
    Alters move rise r (deactivate u r nf cg op w).1 := by
  cases hs : r.loaded.service? with
  | none =>
    simp only [deactivate, hs]
    exact Alters.of_other hs rfl (absurd · (Phase.not_up_of_settled (.inl rfl))) rfl
  | some s =>
    exact (deactivate_makes u s r nf cg w op hs).alters rfl hmv

variable (fds : List Int) (e : ChildExit)

theorem alters_completeNotifyStart (hmv : move .ready r.phase) :
    Alters move rise r (completeNotifyStart u r fds nf cg w).2.1 :=
  Makes.alters_of_or (completeNotifyStart_makes ..) rfl fun _ => hmv

theorem alters_completeDbusStart (hmv : move .ready r.phase) :
    Alters move rise r (completeDbusStart u r fds nf cg w).2.1 :=
  Makes.alters_of_or (completeDbusStart_makes ..) rfl fun _ => hmv

theorem alters_retryForkingPidFile (hmv : r.state = .activating → move .pidFile r.phase) :
    Alters move rise r (retryForkingPidFile u r nf cg w).2.1 :=
  Makes.alters_of_or (retryForkingPidFile_makes ..) rfl fun h =>
    hmv h.2.pidFile_activating

theorem alters_onForkingControlExit (hfa : move .starterFailed r.phase)
    (ha : ∀ s, r.loaded.service? = some s → isSuccess e s = true →
      move .starterAdopted r.phase)
    (hwg : ∀ s, r.loaded.service? = some s → isSuccess e s = true → s.pidFile ≠ "" →
      move .starterWaiting r.phase) :
    Alters move rise r (onForkingControlExit u r e nf cg w).2.1 := by
  cases onForkingControlExit_starterExit u r nf cg w e with
  | ignored h =>
    rw [h]
    exact Alters.refl r
  | failed h => exact h.alters rfl hfa
  | adopted s hs hsu h =>
    exact h.alters_service (by rw [LoadedUnit.isService, hs]; rfl) (ha s hs hsu)
  | waiting s hs hsu hfil h => exact h.alters rfl (hwg s hs hsu hfil)

theorem alters_onChildExit (hmv : move (.mainExit e) r.phase) :
    Alters move rise r (onChildExit u r e nf cg w).2.1 := by
  cases hs : r.loaded.service? with
  | none =>
    simp only [onChildExit, hs]
    exact Alters.refl r
  | some s =>
    rcases onChildExit_makes u r nf cg w e with ⟨-, h⟩ | ⟨-, h⟩
    · exact h.alters_service (by rw [LoadedUnit.isService, hs]; rfl) hmv
    · rw [h]
      exact Alters.refl r

end

theorem restarted_of_granted (h : (automaticRestartDelayAt cv r e now).1 = some d) :
    Restarted (automaticRestartDelayAt cv r e now).2 := by
  have hsu : 0 < Jobs.saturatingSucc r.restartCount := by
    unfold Jobs.saturatingSucc Jobs.u32Max
    split <;> omega
  revert h
  simp only [automaticRestartDelayAt]
  split
  · intro h
    cases h
  split
  · intro h
    cases h
  split
  · split
    · split
      · intro h
        cases h
      · exact fun _ => hsu
    · split
      · intro h
        cases h
      · exact fun _ => hsu
  · exact fun _ => hsu

private theorem restarted_automaticRestartDelayAt {r : UnitRecord} (h : Restarted r) :
    Restarted (automaticRestartDelayAt cv r e now).2 := by
  cases hdl : (automaticRestartDelayAt cv r e now).1 with
  | some d => exact restarted_of_granted cv r e now hdl
  | none =>
    revert hdl
    simp only [automaticRestartDelayAt]
    split
    · exact fun _ => h
    split
    · exact fun _ => h
    split
    · split
      · split
        · exact fun _ => h
        · intro hdl
          cases hdl
      · split
        · exact fun _ => h
        · intro hdl
          cases hdl
    · intro hdl
      cases hdl

theorem alters_automaticRestartDelayAt {move : Label → Phase → Prop} {rise : Prop}
    (hmv : move .limit r.phase) : Alters move rise r (automaticRestartDelayAt cv r e now).2 := by
  obtain ⟨hld, hph | hlm⟩ := automaticRestartDelayAt_record cv r e now
  · exact ⟨hld, fun _ => Reaches.of_eq hph, fun _ hup => .inr (hph ▸ hup),
      fun _ hr => restarted_automaticRestartDelayAt cv e now hr⟩
  exact ⟨hld, fun _ => Reaches.single .limit hmv hlm,
    fun _ hup => .inr (hlm.up_of_up rfl hup),
    fun _ hr => restarted_automaticRestartDelayAt cv e now hr⟩

end Rustd.Service
