import Rustd.Base.Run
import Rustd.Base.Text

/-!
# Inhibitors of the login service

`src/bin/rustd-logind.rs`: `Inhibit` stores an entry with the read end of a new pipe and hands the
write end to the client. `reap_inhibitors` is meant to drop the entries whose client has closed its
end. It asks with `recv`, which a pipe answers with `ENOTSOCK`.

The service publishes two manager objects. They share the table of inhibitors, and each has its own
counter for the keys of the table.
-/

namespace Rustd.Logind

open Base List Option

/-- `ObjectNamespace` of `src/bin/rustd-logind.rs:28`. -/
inductive ObjectNamespace where
  | native
  | compatibility
  deriving DecidableEq

def ObjectNamespace.other : ObjectNamespace → ObjectNamespace
  | .native => .compatibility
  | .compatibility => .native

variable {client cl fd : Nat} {object ob : ObjectNamespace} {descriptor : Option Nat}
  (o : ObjectNamespace)

@[simp] theorem ObjectNamespace.other_other : o.other.other = o := by
  cases o <;> rfl

private theorem ObjectNamespace.other_ne : o.other ≠ o := by
  cases o <;> decide

private theorem ObjectNamespace.eq_or_eq_other (p : ObjectNamespace) : p = o ∨ p = o.other := by
  cases o <;> cases p <;> decide

structure Inhibitor where
  what : List Char
  who : List Char
  why : List Char
  mode : List Char
  uid : Nat
  pid : Nat
  deriving DecidableEq

/-- `InhibitorEntry` of `src/bin/rustd-logind.rs:68`. -/
structure InhibitorEntry extends Inhibitor where
  watch : Nat
  deriving DecidableEq

/-- What a descriptor of the service refers to: one end of a pipe or of a pair of sockets, with
the number of the client that was given the other end. -/
inductive OpenFile where
  | pipe (client : Nat)
  | socket (client : Nat)
  deriving DecidableEq

/-- The error numbers that `recv` can give here. -/
inductive Errno where
  | ebadf
  | enotsock
  | eagain
  deriving DecidableEq

/-- The service and its clients. `files` are the descriptors of the service, `inhibitors` is the
table that the manager objects share, `nextInhibitor` are their counters, and `held` are the
inhibitors whose clients have the descriptor they were given open. -/
structure State where
  files : List (Nat × OpenFile) := []
  nextInhibitor : ObjectNamespace → Nat := fun _ => 0
  inhibitors : List (Nat × InhibitorEntry) := []
  nextClient : Nat := 0
  held : List (Nat × Inhibitor) := []

variable (s : State) (i : Inhibitor)

def State.file (fd : Nat) : Option OpenFile := s.files.lookup fd

def State.isOpen (client : Nat) : Bool := (s.held.lookup client).isSome

/-- `recv(fd, buffer, 1, MSG_DONTWAIT | MSG_PEEK)` on descriptors to which no client writes: the
number of bytes, or the error. -/
def recv (fd : Nat) : Except Errno Nat :=
  match s.file fd with
  | none => .error .ebadf
  | some (.pipe _) => .error .enotsock
  | some (.socket client) => if s.isOpen client then .error .eagain else .ok 0

/-- The entry is kept by `reap_inhibitors`. -/
def retains (entry : InhibitorEntry) : Bool :=
  match recv s entry.watch with
  | .ok n => n != 0
  | .error errno => errno != .ebadf

/-- A dropped entry closes its descriptor. -/
def reapInhibitors : State :=
  let dropped := s.inhibitors.filter (!retains s ·.2)
  { s with
    inhibitors := s.inhibitors.filter (retains s ·.2)
    files := s.files.filter (fun file => !dropped.any (·.2.watch == file.1)) }

/-- An inhibitor of mode `block` for `shutdown` or `handle-power-key`. -/
def Inhibitor.blocksShutdown : Bool :=
  i.mode == "block".toList &&
    (i.what.splitOn ':').any
      (fun token => token == "shutdown".toList || token == "handle-power-key".toList)

/-- One inhibitor in the message of `ensure_shutdown_allowed`. -/
def Inhibitor.description : List Char :=
  i.who ++ ":".toList ++ i.why ++ " (".toList ++ i.what ++ ")".toList

/-- `Manager::ensure_shutdown_allowed` of `src/bin/rustd-logind.rs:250`. -/
def ensureShutdownAllowed : State × Except (List Char) Unit :=
  let s := reapInhibitors s
  let blockers := (s.inhibitors.filter (·.2.blocksShutdown)).map
    (·.2.description)
  if blockers.isEmpty then (s, .ok ())
  else (s, .error ("operation inhibited by ".toList ++ "; ".toList.intercalate blockers))

/-- `Manager::list_inhibitors` of `src/bin/rustd-logind.rs:1002`. -/
def listInhibitors : State × List Inhibitor :=
  let s := reapInhibitors s
  (s, s.inhibitors.map (·.2.toInhibitor))

/-- `HashMap::insert`: an entry that had the key is dropped, which closes its descriptor. -/
def insertInhibitor (id : Nat) (entry : InhibitorEntry) : State :=
  let dropped := s.inhibitors.filter (·.1 == id)
  { s with
    inhibitors := s.inhibitors.filter (·.1 != id) ++ [(id, entry)]
    files := s.files.filter (fun file => !dropped.any (·.2.watch == file.1)) }

/-- The arguments that `Inhibit` rejects. -/
def invalidArguments (what mode : List Char) : Option String :=
  if (trim what).isEmpty then some "inhibitor 'what' must not be empty"
  else if mode != "block".toList && mode != "delay".toList then
    some "inhibitor mode must be 'block' or 'delay'"
  else none

/-- Who calls: the user and process of the service itself, and what the bus answers about the
sender of the message. -/
structure Caller where
  ownUid : Nat
  ownPid : Nat
  senderUid : Option Nat
  senderPid : Option Nat
  deriving DecidableEq

/-- The arguments of `Inhibit`. -/
structure Request where
  what : List Char
  who : List Char
  why : List Char
  mode : List Char
  deriving DecidableEq

variable (request rq : Request)

/-- The inhibitor that a request makes. -/
def Request.inhibitor (caller : Caller) : Inhibitor where
  what := request.what
  who := request.who
  why := request.why
  mode := request.mode
  uid := caller.senderUid.getD caller.ownUid
  pid := caller.senderPid.getD caller.ownPid

/-- The descriptor that `pipe2` gives to the service: one that is not in use, and a C `int`. -/
def usableDescriptor (descriptor : Option Nat) : Option Nat :=
  descriptor.filter (fun fd => (s.file fd).isNone && decide (fd < 2 ^ 31))

/-- `pipe2` with the read end `fd`, and `fetch_add` on the counter of the object. -/
def openPipe (object : ObjectNamespace) (fd : Nat) : State :=
  { s with
    files := s.files ++ [(fd, .pipe s.nextClient)]
    nextClient := s.nextClient + 1
    nextInhibitor := fun o =>
      if o = object then (s.nextInhibitor object + 1) % 2 ^ 64 else s.nextInhibitor o }

/-- `inhibit` of `src/bin/rustd-logind.rs:940`. The pipe it opens has `descriptor` as its read end;
where there is none, or one that is in use, `pipe2` has failed. -/
def inhibit (object : ObjectNamespace) (request : Request) (caller : Caller)
    (descriptor : Option Nat) : State :=
  match invalidArguments request.what request.mode, usableDescriptor s descriptor with
  | none, some fd =>
    let inhibitor := request.inhibitor caller
    let t := insertInhibitor (reapInhibitors (openPipe s object fd)) (s.nextInhibitor object)
      { inhibitor with watch := fd }
    { t with held := t.held ++ [(s.nextClient, inhibitor)] }
  | _, _ => s

def close (client : Nat) : State :=
  { s with held := s.held.filter (·.1 != client) }

/-- What can happen: a call of `Inhibit` on one of the objects, a client that closes its
descriptor, and the two calls that look at the table. -/
inductive Event where
  | inhibit (object : ObjectNamespace) (request : Request) (caller : Caller)
      (descriptor : Option Nat)
  | close (client : Nat)
  | ensureShutdownAllowed
  | listInhibitors
  deriving DecidableEq

def step : Event → State
  | .inhibit object request caller descriptor => inhibit s object request caller descriptor
  | .close client => close s client
  | .ensureShutdownAllowed => (ensureShutdownAllowed s).1
  | .listInhibitors => (listInhibitors s).1

/-- What is asked of the service: the inhibitors it lists are those whose descriptors are open, and
it refuses to shut down exactly when one of these blocks that. -/
structure Exact (s : State) : Prop where
  lists : (listInhibitors s).2.Perm (s.held.map Prod.snd)
  refuses : (∃ message, (ensureShutdownAllowed s).2 = .error message) ↔
    ∃ item ∈ s.held, item.2.blocksShutdown = true

/-- The call of `Inhibit` is answered with a descriptor. -/
def accepted (descriptor : Option Nat) : Prop :=
  invalidArguments request.what request.mode = none ∧ (usableDescriptor s descriptor).isSome = true

/-- No descriptor of an inhibitor is closed, and `Inhibit` is answered by one object only. -/
def Harmless : Event → Prop
  | .inhibit object request _ descriptor =>
    accepted s request descriptor → s.nextInhibitor object.other = 0
  | .close client => s.isOpen client = false
  | .ensureShutdownAllowed => True
  | .listInhibitors => True

/-- The table as it is while all events are harmless: it has the inhibitors that are held, under
the keys in the order in which they came, all of them with the read end of a pipe. -/
structure Faithful (s : State) : Prop where
  keys : s.inhibitors.map Prod.fst = List.range s.inhibitors.length
  same : s.inhibitors.map (·.2.toInhibitor) = s.held.map Prod.snd
  pipes : ∀ item ∈ s.inhibitors, ∃ client, s.file item.2.watch = some (.pipe client)
  watches : (s.inhibitors.map (·.2.watch)).Nodup
  bounded : ∀ item ∈ s.inhibitors, item.2.watch < 2 ^ 31
  counter : ∃ object : ObjectNamespace, s.nextInhibitor object.other = 0 ∧
    s.nextInhibitor object = s.inhibitors.length

variable {s : State}

private theorem faithful_initial : Faithful {} where
  keys := rfl
  same := rfl
  pipes := by simp
  watches := nodup_nil
  bounded := by simp
  counter := ⟨.native, rfl, rfl⟩

/-! ### Nothing is reaped -/

private theorem retains_of_pipe (h : s.file en.watch = some (.pipe cl)) :
    retains s en = true := by
  simp [retains, recv, h]

private theorem reapInhibitors_eq_self
    (h : ∀ a ∈ s.inhibitors, ∃ cl, s.file a.2.watch = some (.pipe cl)) :
    reapInhibitors s = s := by
  have hre : ∀ a ∈ s.inhibitors, retains s a.2 = true := by
    intro a hitm
    obtain ⟨cl, hcli⟩ := h a hitm
    exact retains_of_pipe hcli
  have hkp : s.inhibitors.filter (retains s ·.2) = s.inhibitors := filter_eq_self.mpr hre
  have hdd : s.inhibitors.filter (!retains s ·.2) = [] := by
    refine filter_eq_nil_iff.mpr ?_
    intro a hitm
    simp [hre a hitm]
  simp [reapInhibitors, hkp, hdd]

theorem Faithful.reap (h : Faithful s) : reapInhibitors s = s := reapInhibitors_eq_self h.pipes

theorem Faithful.listed (h : Faithful s) : (listInhibitors s).2 = s.held.map Prod.snd := by
  simp only [listInhibitors, h.reap, h.same]

theorem Faithful.exact (h : Faithful s) : Exact s where
  lists := by rw [h.listed]
  refuses := by
    have hbl : (∃ a ∈ s.inhibitors, a.2.blocksShutdown = true) ↔
        ∃ a ∈ s.held, a.2.blocksShutdown = true := by
      have htb : (∃ a ∈ s.inhibitors, a.2.blocksShutdown = true) ↔
          ∃ i ∈ s.inhibitors.map (·.2.toInhibitor), i.blocksShutdown = true := by
        simp only [List.mem_map, exists_exists_and_eq_and]
      have hhe : (∃ a ∈ s.held, a.2.blocksShutdown = true) ↔
          ∃ i ∈ s.held.map Prod.snd, i.blocksShutdown = true := by
        simp only [List.mem_map, exists_exists_and_eq_and]
      rw [htb, hhe, h.same]
    rw [← hbl]
    simp only [ensureShutdownAllowed, h.reap]
    split
    · next hnn =>
      have hnn : ∀ a ∈ s.inhibitors, a.2.blocksShutdown = false := by
        simpa [filter_eq_nil_iff] using hnn
      simp only [reduceCtorEq, exists_false, false_iff]
      rintro ⟨a, hitm, hbk⟩
      rw [hnn a hitm] at hbk
      cases hbk
    · next hsome =>
      have hsome : ∃ a ∈ s.inhibitors, a.2.blocksShutdown = true := by
        simpa [filter_eq_nil_iff] using hsome
      simp only [Except.error.injEq, exists_eq', true_iff]
      exact hsome

/-! ### One event -/

private theorem Faithful.reap_openPipe (h : Faithful s) (ob : ObjectNamespace) (fd : Nat) :
    reapInhibitors (openPipe s ob fd) = openPipe s ob fd := by
  apply reapInhibitors_eq_self
  intro a hitm
  obtain ⟨cl, hcli⟩ := h.pipes a hitm
  refine ⟨cl, ?_⟩
  rw [State.file] at hcli
  rw [State.file, openPipe, lookup_append, hcli, some_or]

variable {caller : Caller} {request rq : Request} {e : Event}

private theorem Faithful.inhibit_eq (h : Faithful s) (hvl : invalidArguments rq.what rq.mode = none)
    (hfd : usableDescriptor s descriptor = some fd) :
    inhibit s ob rq caller descriptor =
      { insertInhibitor (openPipe s ob fd) (s.nextInhibitor ob)
          { rq.inhibitor caller with watch := fd } with
        held := s.held ++ [(s.nextClient, rq.inhibitor caller)] } := by
  simp only [inhibit, hvl, hfd, h.reap_openPipe]
  rfl

private theorem usableDescriptor_eq_some (h : usableDescriptor s descriptor = some fd) :
    s.file fd = none ∧ fd < 2 ^ 31 := by
  obtain ⟨-, hfd⟩ := filter_eq_some_iff.mp h
  simpa using hfd

theorem Faithful.length_le (h : Faithful s) : s.inhibitors.length ≤ 2 ^ 31 := by
  have hsu : s.inhibitors.map (·.2.watch) ⊆ List.range (2 ^ 31) := by
    intro fd hfd
    obtain ⟨a, hitm, rfl⟩ := List.mem_map.mp hfd
    exact mem_range.mpr (h.bounded a hitm)
  have hln := (subperm_of_subset h.watches hsu).length_le
  simpa using hln

private theorem Faithful.length_held (h : Faithful s) : s.inhibitors.length = s.held.length := by
  simpa using congrArg List.length h.same

theorem Faithful.mem_keys (h : Faithful s) (id : Nat) :
    (∃ a ∈ s.inhibitors, a.1 = id) ↔ id < s.inhibitors.length := by
  rw [← mem_range, ← h.keys, List.mem_map]

private theorem Faithful.counter_eq (h : Faithful s) (hother : s.nextInhibitor ob.other = 0) :
    s.nextInhibitor ob = s.inhibitors.length := by
  obtain ⟨u, hus, hcn⟩ := h.counter
  rcases ob.eq_or_eq_other u with rfl | rfl
  · exact hcn
  · rw [ObjectNamespace.other_other] at hus
    omega

theorem Faithful.inhibit_harmless (h : Faithful s) (hvl : invalidArguments rq.what rq.mode = none)
    (hfd : usableDescriptor s descriptor = some fd) (hother : s.nextInhibitor ob.other = 0) :
    Faithful (inhibit s ob rq caller descriptor) := by
  have hcn := h.counter_eq hother
  have hln := h.length_le
  obtain ⟨hus, hbn⟩ := usableDescriptor_eq_some hfd
  have hfh : ∀ a ∈ s.inhibitors, a.1 ≠ s.inhibitors.length := by
    intro a hitm heq
    exact Nat.lt_irrefl _ ((h.mem_keys _).mp ⟨a, hitm, heq⟩)
  have hkp : s.inhibitors.filter (·.1 != s.inhibitors.length) = s.inhibitors := by
    refine filter_eq_self.mpr fun a hitm => ?_
    simpa using hfh a hitm
  have hdd : s.inhibitors.filter (·.1 == s.inhibitors.length) = [] := by
    refine filter_eq_nil_iff.mpr fun a hitm => ?_
    simpa using hfh a hitm
  rw [h.inhibit_eq hvl hfd]
  simp only [insertInhibitor, openPipe, hcn, hkp, hdd, any_nil, Bool.not_false, filter_true]
  exact
    { keys := by simp [h.keys, range_succ]
      same := by simp [h.same]
      pipes := by
        intro a hitm
        simp only [State.file, lookup_append]
        rcases mem_append.mp hitm with hitm | hitm
        · obtain ⟨cl, hcli⟩ := h.pipes a hitm
          exact ⟨cl, by rw [State.file] at hcli; rw [hcli, some_or]⟩
        obtain rfl := mem_singleton.mp hitm
        refine ⟨s.nextClient, ?_⟩
        rw [State.file] at hus
        rw [hus, none_or]
        simp
      watches := by
        rw [map_append, nodup_append]
        refine ⟨h.watches, by simp, ?_⟩
        intro w hwc v hother
        obtain ⟨a, hitm, rfl⟩ := List.mem_map.mp hwc
        obtain ⟨cl, hcli⟩ := h.pipes a hitm
        obtain rfl : v = fd := by simpa using hother
        rintro rfl
        rw [hcli] at hus
        cases hus
      bounded := by
        intro a hitm
        rcases mem_append.mp hitm with hitm | hitm
        · exact h.bounded a hitm
        · obtain rfl := mem_singleton.mp hitm
          exact hbn
      counter := by
        refine ⟨ob, ?_, ?_⟩
        · simpa [ob.other_ne] using hother
        have hsml : (s.inhibitors.length + 1) % 2 ^ 64 = s.inhibitors.length + 1 := by omega
        simp only [if_true, length_append, length_cons, length_nil]
        exact hsml }

theorem Faithful.inhibit_second (h : Faithful s) (hvl : invalidArguments rq.what rq.mode = none)
    (hfd : usableDescriptor s descriptor = some fd) (hother : s.nextInhibitor ob.other ≠ 0) :
    (inhibit s ob rq caller descriptor).inhibitors.length <
      (inhibit s ob rq caller descriptor).held.length := by
  obtain ⟨u, hus, hcn⟩ := h.counter
  have hud : u = ob.other := by
    rcases ob.eq_or_eq_other u with rfl | hud
    · exact absurd hus hother
    · exact hud
  subst hud
  have hnx : s.nextInhibitor ob = 0 ∧ 0 < s.inhibitors.length := by
    rw [ObjectNamespace.other_other] at hus
    exact ⟨hus, by omega⟩
  obtain ⟨a, hitm, hkey⟩ := (h.mem_keys 0).mpr hnx.2
  have hsh : (s.inhibitors.filter (·.1 != 0)).length <
      s.inhibitors.length :=
    length_filter_lt_length_iff_exists.mpr ⟨a, hitm, by simp [hkey]⟩
  have hhe := h.length_held
  rw [h.inhibit_eq hvl hfd]
  simp only [insertInhibitor, openPipe, hnx.1, length_append, length_cons, length_nil]
  omega

private theorem inhibit_of_not_accepted (h : ¬accepted s rq descriptor) :
    inhibit s ob rq caller descriptor = s := by
  unfold inhibit
  split
  · next fd hvl hfd => exact absurd ⟨hvl, by rw [hfd]; rfl⟩ h
  · rfl

private theorem isOpen_eq_false_iff (client : Nat) :
    s.isOpen client = false ↔ ∀ a ∈ s.held, a.1 ≠ client := by
  simp only [State.isOpen, isSome_eq_false_iff, isNone_iff_eq_none, lookup_eq_none_iff, bne_iff_ne]
  exact forall₂_congr fun _ _ => ne_comm

private theorem close_of_not_open (h : s.isOpen cl = false) : close s cl = s := by
  have hkp : s.held.filter (·.1 != cl) = s.held := by
    refine filter_eq_self.mpr fun a hitm => ?_
    simpa using (isOpen_eq_false_iff cl).mp h a hitm
  simp only [close, hkp]

private theorem Faithful.close_open (h : Faithful s) (hon : s.isOpen client = true) :
    (close s client).held.length < (close s client).inhibitors.length := by
  have hhe := h.length_held
  obtain ⟨a, hitm, hcli⟩ : ∃ a ∈ s.held, a.1 = client := by
    by_contra hnn
    push Not at hnn
    rw [(isOpen_eq_false_iff client).mpr hnn] at hon
    cases hon
  have hsh : (s.held.filter (·.1 != client)).length < s.held.length :=
    length_filter_lt_length_iff_exists.mpr ⟨a, hitm, by simp [hcli]⟩
  simp only [close]
  omega

theorem Faithful.step (h : Faithful s) (he : Harmless s e) : Faithful (step s e) := by
  cases e with
  | inhibit ob rq caller descriptor =>
    by_cases hacc : accepted s rq descriptor
    · obtain ⟨fd, hfd⟩ := isSome_iff_exists.mp hacc.2
      exact h.inhibit_harmless hacc.1 hfd (he hacc)
    have hsa : Logind.step s (.inhibit ob rq caller descriptor) = s := inhibit_of_not_accepted hacc
    rw [hsa]
    exact h
  | close cl =>
    have hcl : Logind.step s (.close cl) = s := close_of_not_open he
    rw [hcl]
    exact h
  | ensureShutdownAllowed =>
    have hsa : (Logind.ensureShutdownAllowed s).1 = s := by
      simp only [Logind.ensureShutdownAllowed]
      split <;> exact h.reap
    rw [Logind.step, hsa]
    exact h
  | listInhibitors =>
    rw [Logind.step, Logind.listInhibitors, h.reap]
    exact h

/-! ### Every run -/

private theorem length_listInhibitors_le (s : State) :
    (listInhibitors s).2.length ≤ s.inhibitors.length := by
  simp only [listInhibitors, reapInhibitors, length_map]
  exact length_filter_le _ _

theorem Faithful.not_exact (h : Faithful s) (he : ¬Harmless s e) : ¬Exact (Logind.step s e) := by
  intro hec
  have hln := hec.lists.length_eq
  rw [length_map] at hln
  cases e with
  | inhibit object request caller descriptor =>
    obtain ⟨hacc, hother⟩ : accepted s request descriptor ∧ s.nextInhibitor object.other ≠ 0 := by
      simpa [Harmless] using he
    obtain ⟨fd, hfd⟩ := isSome_iff_exists.mp hacc.2
    have hlos : (inhibit s object request caller descriptor).inhibitors.length <
        (inhibit s object request caller descriptor).held.length :=
      h.inhibit_second hacc.1 hfd hother
    have hlst := length_listInhibitors_le (inhibit s object request caller descriptor)
    simp only [Logind.step] at hln
    omega
  | close client =>
    have hon : s.isOpen client = true := by simpa [Harmless] using he
    have hst := h.close_open hon
    have hre : reapInhibitors (close s client) = close s client := reapInhibitors_eq_self h.pipes
    simp only [Logind.step, listInhibitors, hre, length_map] at hln
    omega
  | ensureShutdownAllowed | listInhibitors => exact he trivial

/-- For every run: the answers are exact all along exactly when no client closes its descriptor
and only one of the two objects answers `Inhibit`. -/
theorem exact_iff_harmless (events : List Event) :
    (∀ earlier, earlier <+: events → Exact (run step {} earlier)) ↔
      AllSteps step Harmless {} events := by
  refine forall_run_iff_allSteps (D := fun _ => True) (I := Faithful) ?_ ?_ {} events
    (fun _ _ => trivial) faithful_initial faithful_initial.exact
  · intro s e _ hfa _ hec
    by_cases he : Harmless s e
    · exact hfa.step he
    · exact absurd hec (hfa.not_exact he)
  intro s e _ hfa _
  constructor
  · intro hec
    by_contra he
    exact hfa.not_exact he hec
  · intro he
    exact (hfa.step he).exact

def blockShutdown (who : String) : Request where
  what := "shutdown".toList
  who := who.toList
  why := "busy".toList
  mode := "block".toList

def someCaller : Caller where
  ownUid := 0
  ownPid := 1
  senderUid := some 1000
  senderPid := some 200

/-- After the only inhibitor was released it is still listed and still blocks the shutdown. With
one inhibitor on each object, the first one is lost while its descriptor is open. -/
theorem released_inhibitor_blocks :
    let released := run step {} [.inhibit .native (blockShutdown "backup") someCaller (some 5),
      .close 0]
    let both := run step {} [.inhibit .native (blockShutdown "backup") someCaller (some 5),
      .inhibit .compatibility { blockShutdown "player" with what := "idle".toList } someCaller
        (some 7)]
    (released.held = [] ∧
      (ensureShutdownAllowed released).2 =
        .error "operation inhibited by backup:busy (shutdown)".toList ∧
      (listInhibitors released).2.length = 1) ∧
    (both.held.length = 2 ∧ (∃ a ∈ both.held, a.2.blocksShutdown = true) ∧
      (ensureShutdownAllowed both).2 = .ok () ∧ (listInhibitors both).2.length = 1) := by
  decide

end Rustd.Logind
