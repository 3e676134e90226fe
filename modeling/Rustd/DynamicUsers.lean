import Rustd.Base.Run

/-!
# Dynamic user allocation

Embedding of `DynamicUser::allocate_in` and of its destructor in `src/dynamic_user.rs:57–135`.
The lock directory is the set of its file names. A lock file is named after the UID and the
service, so exclusive creation keeps two allocations of one service apart and says nothing
about two services: both get the lowest UID that has no lock of their own.
-/

namespace Rustd.DynamicUsers

open Rustd.Base List Std

def dynamicUidMin : Nat := 61184

def dynamicUidMax : Nat := 65519

abbrev LockDir := ExtTreeSet String

/-- One allocation; `lock_path` is `lockName uid name`. -/
structure DynamicUser where
  uid : Nat
  name : String
  deriving DecidableEq

/-- Lock file of a UID and a service. -/
def lockName (uid : Nat) (service : String) : String := toString uid ++ "-" ++ service

def DynamicUser.lock (user : DynamicUser) : String := lockName user.uid user.name

/-- Outcome of `open` with `O_CREAT | O_EXCL`. -/
inductive Opened where
  | created
  | alreadyExists
  | failed
  deriving DecidableEq

variable (locks : LockDir)

/-- Exclusive creation: it may fail for other reasons, and else it succeeds exactly when the
name is free. -/
def createNew (name : String) (error : Bool) : Opened :=
  if error then .failed else if locks.contains name then .alreadyExists else .created

/-- The UIDs tried in turn. -/
def uidRange : List Nat := List.range' dynamicUidMin (dynamicUidMax + 1 - dynamicUidMin)

/-- The allocation loop over the UIDs still to be tried. -/
def allocateFrom (service : String) (openError : Nat → Bool) :
    List Nat → LockDir → Except String DynamicUser × LockDir
  | [], locks =>
    (.error s!"dynamic-user range {dynamicUidMin}–{dynamicUidMax} exhausted for service '{service}'",
      locks)
  | uid :: rest, locks =>
    match createNew locks (lockName uid service) (openError uid) with
    | .created => (.ok ⟨uid, service⟩, locks.insert (lockName uid service))
    | .alreadyExists => allocateFrom service openError rest locks
    | .failed => (.error "lock file cannot be created", locks)

/-- `DynamicUser::allocate_in` of `src/dynamic_user.rs:57`. -/
def allocateIn (service : String) (dirError : Bool) (openError : Nat → Bool) (locks : LockDir) :
    Except String DynamicUser × LockDir :=
  if dirError then (.error "allocation directory cannot be created or secured", locks)
  else allocateFrom service openError uidRange locks

structure Allocations where
  locks : LockDir
  live : List DynamicUser

inductive UserOp where
  | allocate (service : String) (dirError : Bool) (openError : Nat → Bool)
  | drop (user : DynamicUser) (unlinkError : Bool)

variable (s : Allocations)

/-- One operation; a drop removes the lock file unless `unlink` fails. -/
def step : UserOp → Allocations
  | .allocate service dirError openError =>
    match allocateIn service dirError openError s.locks with
    | (.ok user, locks) => ⟨locks, user :: s.live⟩
    | (.error _, locks) => ⟨locks, s.live⟩
  | .drop user unlinkError =>
    if user ∈ s.live then
      ⟨if unlinkError then s.locks else s.locks.erase user.lock, s.live.erase user⟩
    else s

def start : Allocations := ⟨locks, []⟩

/-- No two live users have one uid. -/
def UidsDistinct : Prop := (s.live.map DynamicUser.uid).Nodup

/-- `uid` is the lowest UID that the service has no lock file for, and no earlier attempt
fails for another reason. -/
def LowestFree (service : String) (openError : Nat → Bool) (uid : Nat) : Prop :=
  dynamicUidMin ≤ uid ∧ uid ≤ dynamicUidMax ∧
    (∀ v, dynamicUidMin ≤ v → v < uid → openError v = false ∧ lockName v service ∈ locks) ∧
      openError uid = false ∧ lockName uid service ∉ locks

/-- The number that is given out is of no live user of another service. -/
def Unclaimed : UserOp → Prop
  | .allocate service dirError openError => dirError = true ∨
    ∀ user ∈ s.live, user.name ≠ service → ¬LowestFree s.locks service openError user.uid
  | .drop _ _ => True

private theorem dash_notMem_toDigits (n : Nat) : ∀ c ∈ Nat.toDigits 10 n, (c != '-') = true := by
  intro c hc
  have hdg := Nat.isDigit_of_mem_toDigits (by decide) (by decide) hc
  rw [bne_iff_ne]
  rintro rfl
  exact absurd hdg (by decide)

variable (s : Allocations) (service : String) (op : UserOp) (dirError : Bool)
  (openError oe : Nat → Bool) (locks l' : LockDir) (user usr : DynamicUser)

private theorem lockName_injective (uid uid' : Nat) (service service' : String)
    (h : lockName uid service = lockName uid' service') : uid = uid' ∧ service = service' := by
  have hlis : Nat.toDigits 10 uid ++ '-' :: service.toList =
      Nat.toDigits 10 uid' ++ '-' :: service'.toList := by
    have hl := congrArg String.toList h
    simpa [lockName, String.toList_append, Nat.toList_repr] using hl
  -- The digits are what stands before the first dash.
  have hdi := congrArg (List.takeWhile (· != '-')) hlis
  rw [takeWhile_append_of_pos (dash_notMem_toDigits uid),
    takeWhile_append_of_pos (dash_notMem_toDigits uid')] at hdi
  simp only [takeWhile_cons, bne_self_eq_false, Bool.false_eq_true, if_false, append_nil] at hdi
  have huid : uid = uid' := by
    rw [← Nat.ofDigitChars_ten_toDigits (n := uid), hdi, Nat.ofDigitChars_ten_toDigits]
  subst huid
  have hservice := append_cancel_left hlis
  exact ⟨rfl, String.toList_inj.mp (List.cons.inj hservice).2⟩

-- Induction on the number of UIDs left to try; `low` is the next one.
private theorem allocateFrom_range (l' : LockDir) (n low : Nat) :
    allocateFrom service openError (List.range' low n) locks = (.ok user, l') ↔
      (user.name = service ∧ l' = locks.insert user.lock) ∧
        low ≤ user.uid ∧ user.uid < low + n ∧
          (∀ v, low ≤ v → v < user.uid → openError v = false ∧ lockName v service ∈ locks) ∧
            openError user.uid = false ∧ lockName user.uid service ∉ locks := by
  induction n generalizing low with
  | zero =>
    simp only [range'_zero, allocateFrom, Prod.mk.injEq, reduceCtorEq, false_and, false_iff]
    intro h
    omega
  | succ n ih =>
    rw [range'_succ, allocateFrom, createNew]
    cases herr : openError low with
    | true =>
      simp only [if_true, Prod.mk.injEq, reduceCtorEq, false_and, false_iff]
      rintro ⟨-, hle, -, hbe, hon, -⟩
      rcases Nat.eq_or_lt_of_le hle with rfl | hlt
      · rw [herr] at hon
        cases hon
      · rw [(hbe low (Nat.le_refl low) hlt).1] at herr
        cases herr
    | false =>
      by_cases hlo : lockName low service ∈ locks
      · have hct : locks.contains (lockName low service) = true := hlo
        simp only [hct, if_true, Bool.false_eq_true, if_false]
        rw [ih (low + 1)]
        apply and_congr_right
        intro _
        constructor
        · rintro ⟨hle, hlt, hbe, hon, hfre⟩
          refine ⟨by omega, by omega, ?_, hon, hfre⟩
          intro v hv hvlt
          rcases Nat.eq_or_lt_of_le hv with rfl | hgt
          · exact ⟨herr, hlo⟩
          · exact hbe v hgt hvlt
        · rintro ⟨hle, hlt, hbe, hon, hfre⟩
          have hne : low ≠ user.uid := by
            rintro rfl
            exact hfre hlo
          refine ⟨by omega, by omega, ?_, hon, hfre⟩
          intro v hv hvlt
          exact hbe v (by omega) hvlt
      · have hct : locks.contains (lockName low service) = false := by
          rw [← Bool.not_eq_true]
          exact hlo
        simp only [hct, Bool.false_eq_true, if_false, Prod.mk.injEq, Except.ok.injEq]
        constructor
        · rintro ⟨rfl, rfl⟩
          refine ⟨⟨rfl, rfl⟩, Nat.le_refl low, Nat.lt_add_of_pos_right (Nat.succ_pos n), ?_,
            herr, hlo⟩
          intro v hv hvlt
          exact absurd hvlt (Nat.not_lt.mpr hv)
        · rintro ⟨⟨hname, hlc⟩, hle, -, hbe, -, -⟩
          have huid : user.uid = low := by
            by_contra hne
            exact hlo (hbe low (Nat.le_refl low) (by omega)).2
          have husr : (⟨low, service⟩ : DynamicUser) = user := by
            rw [← huid, ← hname]
          exact ⟨husr, by rw [hlc, ← husr]; rfl⟩

private theorem allocateIn_ok :
    allocateIn service dirError oe locks = (.ok usr, l') ↔
      dirError = false ∧ (usr.name = service ∧ l' = locks.insert usr.lock) ∧
        LowestFree locks service oe usr.uid := by
  unfold allocateIn
  cases dirError with
  | true => simp
  | false =>
    simp only [Bool.false_eq_true, if_false, true_and]
    unfold uidRange LowestFree
    rw [allocateFrom_range]
    have hend : dynamicUidMin + (dynamicUidMax + 1 - dynamicUidMin) = dynamicUidMax + 1 := by decide
    rw [hend, Nat.lt_succ_iff]

private theorem allocateIn_error (err : String)
    (h : allocateIn service dirError oe locks = (.error err, l')) : l' = locks := by
  have loop (u : List Nat)
      (he : allocateFrom service oe u locks = (.error err, l')) :
      l' = locks := by
    induction u with
    | nil =>
      rw [allocateFrom] at he
      exact (Prod.mk.inj he).2.symm
    | cons uid l ih =>
      rw [allocateFrom] at he
      split at he
      · cases he
      · exact ih he
      · exact (Prod.mk.inj he).2.symm
  unfold allocateIn at h
  split at h
  · exact (Prod.mk.inj h).2.symm
  · exact loop uidRange h

theorem LowestFree.unique {locks : LockDir} {service : String} {oe : Nat → Bool}
    (hu : LowestFree locks service oe u) (hv : LowestFree locks service oe v) : u = v := by
  rcases Nat.lt_trichotomy u v with hlt | heq | hgt
  · exact absurd (hv.2.2.1 u hu.1 hlt).2 hu.2.2.2.2
  · exact heq
  · exact absurd (hu.2.2.1 v hv.1 hgt).2 hv.2.2.2.2

/-- The lock of every live user is there. -/
structure LocksOwned (s : Allocations) : Prop where
  distinct : s.live.Nodup
  owned : ∀ user ∈ s.live, user.lock ∈ s.locks

private theorem locksOwned_start : LocksOwned (start locks) where
  distinct := nodup_nil
  owned usr h := by cases h

private theorem step_allocate_cases : (∃ usr : DynamicUser, usr.name = service ∧ dirError = false ∧
        LowestFree s.locks service oe usr.uid ∧
          step s (.allocate service dirError oe) = ⟨s.locks.insert usr.lock, usr :: s.live⟩) ∨
      (step s (.allocate service dirError oe) = s ∧
        ∀ uid, dirError = false → ¬LowestFree s.locks service oe uid) := by
  cases hre : allocateIn service dirError oe s.locks with
  | mk outcome l' =>
    cases outcome with
    | ok usr =>
      obtain ⟨hdir, ⟨hname, hlo⟩, hfre⟩ := (allocateIn_ok _ _ _ _ _ _).mp hre
      refine .inl ⟨usr, hname, hdir, hfre, ?_⟩
      rw [step, hre, hlo]
    | error error =>
      have hlo := allocateIn_error _ _ _ _ _ _ hre
      refine .inr ⟨by rw [step, hre, hlo], ?_⟩
      intro uid hdir hfre
      have hok := (allocateIn_ok service dirError oe s.locks
        (s.locks.insert (lockName uid service)) ⟨uid, service⟩).mpr ⟨hdir, ⟨rfl, rfl⟩, hfre⟩
      cases hok.symm.trans hre

private theorem locksOwned_step (h : LocksOwned s) : LocksOwned (step s op) := by
  cases op with
  | allocate service dirError oe =>
    rcases step_allocate_cases s service dirError oe with
      ⟨usr, hname, -, hfre, hsp⟩ | ⟨hsp, -⟩
    · rw [hsp]
      refine ⟨nodup_cons.mpr ⟨?_, h.distinct⟩, ?_⟩
      · intro hlv
        apply hfre.2.2.2.2
        rw [← hname]
        exact h.owned usr hlv
      intro v hother
      rw [ExtTreeSet.mem_insert]
      rcases mem_cons.mp hother with rfl | hother
      · exact .inl (by simp)
      · exact .inr (h.owned v hother)
    · rw [hsp]
      exact h
  | drop usr u =>
    rw [step]
    by_cases hlv : usr ∈ s.live
    · rw [if_pos hlv]
      refine ⟨h.distinct.erase usr, ?_⟩
      intro v hother
      have hmem := (h.distinct.mem_erase_iff).mp hother
      cases u with
      | true => exact h.owned v hmem.2
      | false =>
        simp only [Bool.false_eq_true, if_false]
        rw [ExtTreeSet.mem_erase]
        refine ⟨?_, h.owned v hmem.2⟩
        -- Two allocations with one lock file name would be one allocation.
        intro heq
        have hname : usr.lock = v.lock := by simpa using heq
        obtain ⟨huid, hservice⟩ := lockName_injective _ _ _ _ hname
        apply hmem.1
        cases v
        cases usr
        simp_all
    · rw [if_neg hlv]
      exact h

private theorem uidsDistinct_step_iff (h : LocksOwned s) (hds : UidsDistinct s) :
    UidsDistinct (step s op) ↔ Unclaimed s op := by
  cases op with
  | allocate service dirError oe =>
    rcases step_allocate_cases s service dirError oe with
      ⟨usr, hname, hdir, hfre, hsp⟩ | ⟨hsp, hnn⟩
    · rw [hsp]
      unfold UidsDistinct Unclaimed
      rw [map_cons, nodup_cons]
      simp only [hdir, Bool.false_eq_true, false_or, List.mem_map, not_exists, not_and]
      constructor
      · rintro ⟨hnew, -⟩ v hother - hlo
        exact hnew v hother (LowestFree.unique hlo hfre)
      intro hcl
      refine ⟨?_, hds⟩
      intro v hother huid
      by_cases hsa : v.name = service
      · apply hfre.2.2.2.2
        rw [← huid, ← hsa]
        exact h.owned v hother
      · exact hcl v hother hsa (by rw [huid]; exact hfre)
    · rw [hsp]
      refine iff_of_true hds ?_
      cases hdir : dirError with
      | true => exact .inl rfl
      | false => exact .inr (fun v _ _ => hnn v.uid hdir)
  | drop usr u =>
    refine iff_of_true ?_ trivial
    rw [step]
    by_cases hlv : usr ∈ s.live
    · rw [if_pos hlv]
      exact hds.sublist (erase_sublist.map DynamicUser.uid)
    · rw [if_neg hlv]
      exact hds

/-- Over every run of allocations and drops, UIDs stay distinct in every state reached exactly
when no step allocates a UID that a live allocation of another service holds. -/
theorem uids_distinct_iff_unclaimed (locks : LockDir) (ops : List UserOp) :
    (∀ done, done <+: ops → UidsDistinct (run step (start locks) done)) ↔
      AllSteps step Unclaimed (start locks) ops :=
  forall_run_iff_allSteps (D := fun _ => True) (fun s op _ hs _ _ => locksOwned_step s op hs)
    (fun s op _ => uidsDistinct_step_iff s op) (start locks) ops (fun _ _ => trivial)
    (locksOwned_start locks) nodup_nil

def noError : Nat → Bool := fun _ => false

theorem two_services_share_uid :
    ¬UidsDistinct (run step (start ∅)
      [.allocate "a.service" false noError, .allocate "b.service" false noError]) := by
  have hlv : (run step (start ∅)
      [.allocate "a.service" false noError, .allocate "b.service" false noError]).live =
        [⟨61184, "b.service"⟩, ⟨61184, "a.service"⟩] := by decide
  unfold UidsDistinct
  rw [hlv]
  decide

/-- Whatever fails in a run of allocations and drops, no allocation is live twice, and each holds
its lock file. -/
theorem live_users_hold_locks (locks : LockDir) (ops : List UserOp) :
    LocksOwned (run step (start locks) ops) :=
  run_preserves (fun s op => locksOwned_step s op) _ ops (locksOwned_start locks)

end Rustd.DynamicUsers
