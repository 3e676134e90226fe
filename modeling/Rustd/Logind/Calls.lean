import Rustd.Base.Run
import Rustd.Logind.Store

/-!
# Calls of the login service

`src/bin/rustd-logind.rs`: the calls that create, change and release sessions. Strings of the caller
go into the records, and ids and seats into paths. As long as no string of a record holds a newline
and ids and seats are names of files, the service keeps to its directories; when the strings have no
white space at their ends either, every record is read back as it was given.
-/

namespace Rustd.Logind

open Base Disk List Option

/-- The arguments of `CreateSession` that go into the record. -/
structure CreateRequest where
  uid : UInt32
  pid : UInt32
  service : List Char
  sessionType : List Char
  sessionClass : List Char
  desktop : List Char
  seat : List Char
  tty : List Char
  display : List Char
  remote : Bool
  remoteUser : List Char
  remoteHost : List Char
  deriving DecidableEq

/-- What `CreateSession` learns from outside: the name and group of the user, whether the runtime
directory of the user is ready, whether the manager of the user was started and the objects were
published, and whether there is a pipe for the client. -/
structure CreateAnswers where
  passwd : Option (List Char × UInt32)
  runtimeReady : Bool
  managerStarted : Bool
  published : Bool
  pipe : Bool
  deriving DecidableEq

def orDefault (text : List Char) (default : String) : List Char :=
  if text = [] then default.toList else text

/-- The session that a request makes. -/
def CreateRequest.session (request : CreateRequest) (id user : List Char) (gid : UInt32) :
    Session where
  id := id
  uid := request.uid
  user := user
  gid := gid
  seat := orDefault request.seat "seat0"
  tty := request.tty
  service := request.service
  sessionType := orDefault request.sessionType "unspecified"
  sessionClass := orDefault request.sessionClass "user"
  desktop := request.desktop
  display := request.display
  remote := request.remote
  remoteUser := request.remoteUser
  remoteHost := request.remoteHost
  leader := request.pid
  state := "active".toList
  locked := false

/-- Part of `Manager`, `src/bin/rustd-logind.rs:78`. -/
structure Service where
  disk : Disk
  nextSession : Nat

def idOf (n : Nat) : List Char := 'r' :: decimal n

variable (c : Config)

/-- The loop for a free id. -/
def freshNumber (t : FileTree) : Nat → Nat → Option Nat
  | 0, _ => none
  | fuel + 1, n => if (session c t (idOf n)).isNone then some n else freshNumber t fuel (n + 1)

inductive Outcome where
  | unchanged
  | stored (id : List Char)
  | removed (id : List Char)
  deriving DecidableEq

variable (s : Service)

/-- `create_session` of `src/bin/rustd-logind.rs:330`. The loop that looks for a free id is bounded
by one more than the number of the sessions, so it always finds one. -/
def createSession (request : CreateRequest) (answers : CreateAnswers) : Service × Outcome :=
  match answers.passwd with
  | none => (s, .unchanged)
  | some (user, gid) =>
    if !answers.runtimeReady then (s, .unchanged)
    else match freshNumber c s.disk.tree
        ((s.disk.tree.children (c.root ++ [Kind.sessions.name])).length + 1) s.nextSession with
      | none => (s, .unchanged)
      | some n =>
        let new := request.session (idOf n) user gid
        let stored := storeRecord c new s.disk
        let saved := andThen stored (rebuildSummaries c)
        if saved.2 && answers.managerStarted && answers.published && !answers.pipe then
          let removed := removeRecord c new.id saved.1
          (⟨(andThen removed (rebuildSummaries c)).1, n + 1⟩,
            if removed.2 then .unchanged else .stored new.id)
        else (⟨saved.1, n + 1⟩, if stored.2 then .stored new.id else .unchanged)

def updateSession (id : List Char) (change : Session → Session) : Service × Outcome :=
  match session c s.disk.tree id with
  | none => (s, .unchanged)
  | some old =>
    let stored := storeRecord c (change old) s.disk
    (⟨(andThen stored (rebuildSummaries c)).1, s.nextSession⟩,
      if stored.2 then .stored id else .unchanged)

/-- `SessionObject::set_type` of `src/bin/rustd-logind.rs:1642`. -/
def setType (id type : List Char) : Service × Outcome :=
  if type = [] then (s, .unchanged)
  else updateSession c s id fun old => { old with sessionType := type }

/-- `SessionObject::set_display` of `src/bin/rustd-logind.rs:1653`. -/
def setDisplay (id display : List Char) : Service × Outcome :=
  updateSession c s id fun old => { old with display := display }

/-- `set_locked` of `src/bin/rustd-logind.rs:229`. -/
def setLocked (id : List Char) (locked : Bool) : Service × Outcome :=
  updateSession c s id fun old => { old with locked := locked }

/-- `release_session` of `src/bin/rustd-logind.rs:455`. `terminate_session` does the same after it
has sent a signal to the leader. -/
def releaseSession (id : List Char) : Service × Outcome :=
  let removed := removeRecord c id s.disk
  (⟨(andThen removed (rebuildSummaries c)).1, s.nextSession⟩,
    if removed.2 then .removed id else .unchanged)

inductive Call where
  | create (request : CreateRequest) (answers : CreateAnswers)
  | setType (id type : List Char)
  | setDisplay (id display : List Char)
  | setLocked (id : List Char) (locked : Bool)
  | release (id : List Char)
  | terminate (id : List Char)
  deriving DecidableEq

def call : Call → Service × Outcome
  | .create request answers => createSession c s request answers
  | .setType id type => setType c s id type
  | .setDisplay id display => setDisplay c s id display
  | .setLocked id locked => setLocked c s id locked
  | .release id => releaseSession c s id
  | .terminate id => releaseSession c s id

/-! ### Where the service writes -/

variable {c} {d d' : Disk} {s : Service} {id : List Char}

/-- The entries that the service may change: files directly inside its directories, and these
directories themselves. -/
def Allowed (c : Config) (loc : Location) : Prop := (∃ kind, Inside c kind loc) ∨ OnTheWay c loc

private theorem allowed_of_summary {loc : Location} (h : Summary c loc) : Allowed c loc := by
  rcases h with h | h | h
  · exact .inl ⟨.users, h⟩
  · exact .inl ⟨.seats, h⟩
  · exact .inr h

variable {t : FileTree} {new : Session} (old : Session)

theorem id_of_session {old : Session} (h : session c t id = some old) : old.id = id := by
  obtain ⟨te, -, rfl⟩ := map_eq_some_iff.mp h
  rfl

theorem clean_of_session {old : Session} (h : session c t id = some old) : old.Clean := by
  obtain ⟨te, -, rfl⟩ := map_eq_some_iff.mp h
  exact clean_fromMap id te

private theorem plainName_or (h : '/' ∉ u) : PlainName u ∨ u = [] ∨ u = ['.'] ∨ u = dotDot := by
  by_cases hkp : keptComponent u = true
  · by_cases hdt : u = dotDot
    · exact .inr (.inr (.inr hdt))
    · exact .inl ⟨h, hkp, hdt⟩
  have hsh : u = [] ∨ u = ['.'] := by
    by_contra hne
    push Not at hne
    exact hkp (by simp [keptComponent, hne.1, hne.2])
  rcases hsh with hsh | hsh
  · exact .inr (.inl hsh)
  · exact .inr (.inr (.inl hsh))

private theorem recordPath_of_not_plain (h : '/' ∉ id) (hpl : ¬PlainName id) (t : FileTree) :
    t.readFile (recordPath c id) = none ∧ t.entry (recordPath c id) = none := by
  have hjo : recordPath c id =
      ⟨(directory c .sessions).components ++ componentsOf id, endsInDirectory id⟩ := by
    refine if_neg fun hhd => h (mem_of_mem_head? hhd)
  rcases (plainName_or h).resolve_left hpl with rfl | rfl | rfl
  · have htg : (recordPath c []).trailing = true := by rw [hjo]; rfl
    exact ⟨FileTree.readFile_of_trailing htg, FileTree.entry_of_trailing htg⟩
  · have htg : (recordPath c ['.']).trailing = true := by rw [hjo]; rfl
    exact ⟨FileTree.readFile_of_trailing htg, FileTree.entry_of_trailing htg⟩
  have hdt : componentsOf dotDot = [dotDot] := by decide
  have hco : (recordPath c dotDot).components =
      (directory c .sessions).components ++ [dotDot] := by rw [hjo, hdt]
  exact ⟨FileTree.readFile_of_dotDot hco, FileTree.entry_of_dotDot hco⟩

theorem session_of_not_plain (h : '/' ∉ id) (hpl : ¬PlainName id) (t : FileTree) :
    session c t id = none := by
  rw [session, (recordPath_of_not_plain h hpl t).1]
  rfl

theorem removeRecord_of_not_plain (h : '/' ∉ id) (hpl : ¬PlainName id) (d : Disk) :
    (removeRecord c id d).1 = d := by
  unfold removeRecord
  split
  · rw [Disk.removeFile, (recordPath_of_not_plain h hpl d.tree).2]
    rfl
  · rfl

theorem plainName_idOf (n : Nat) : PlainName (idOf n) := by
  have hdi := plainName_decimal n
  refine ⟨?_, ?_, ?_⟩
  · simp only [idOf, mem_cons, not_or]
    exact ⟨by decide, hdi.noSlash⟩
  · simp [keptComponent, idOf]
  · simp [idOf, dotDot]

private theorem seat_fromMap (h : ∀ f, '\n' ∉ new.text f) (u : Name) :
    (Session.fromMap u (parse new.serialize)).seat = trim new.seat :=
  string_eq (valueOf_parse_serialize h .seat) "seat0"

structure Confined (c : Config) (d d' : Disk) : Prop where
  within : Within (Allowed c) d d'
  seats : SeatsPlain c d'.tree

theorem Confined.refl (h : SeatsPlain c d.tree) : Confined c d d := ⟨Within.refl d, h⟩

private theorem seatsPlain_rebuildSummaries (h : SeatsPlain c d.tree) :
    SeatsPlain c (rebuildSummaries c d).1.tree := by
  intro u v hother
  rw [recordAt_of_within (within_rebuildSummaries h)] at hother
  exact h u v hother

theorem confined_andThen (h : Confined c d r.1) :
    Confined c d (andThen r (rebuildSummaries c)).1 := by
  unfold andThen
  split
  · refine ⟨h.within.trans ?_, seatsPlain_rebuildSummaries h.seats⟩
    exact (within_rebuildSummaries h.seats).mono fun loc hloc => allowed_of_summary hloc
  · exact h

theorem confined_storeRecord (hss : SeatsPlain c d.tree) (hid : PlainName new.id)
    (hlines : ∀ f, '\n' ∉ new.text f) (hsea : PlainName (trim new.seat)) :
    Confined c d (storeRecord c new d).1 := by
  refine ⟨(within_storeRecord hid d).mono ?_, ?_⟩
  · rintro loc (hloc | hloc)
    · exact .inl ⟨.sessions, inside_of_written hloc⟩
    · exact .inr hloc
  intro u v hother
  rcases recordAt_storeRecord hid hother with hold | rfl
  · exact hss u v hold
  · rw [seat_fromMap hlines]
    exact hsea

theorem confined_removeRecord (hss : SeatsPlain c d.tree) (hid : '/' ∉ id) :
    Confined c d (removeRecord c id d).1 := by
  by_cases hpl : PlainName id
  · have hwi := within_removeRecord (c := c) hpl d
    refine ⟨hwi.mono fun loc hloc => .inl ⟨.sessions, id, hloc⟩, ?_⟩
    intro u v hother
    by_cases hname : u = id
    · -- the entry is gone, or it was not a file that could be removed
      subst hname
      unfold removeRecord at hother
      split at hother
      · cases hrv : d.removeFile (recordPath c u) with
        | none =>
          rw [hrv] at hother
          exact hss u v hother
        | some d' =>
          obtain ⟨loc, hloc, -, hnn⟩ := removeFile_eq_some hrv
          obtain rfl := entry_join hpl hloc
          rw [hrv, recordAt] at hother
          simp only [attempt, hnn] at hother
          cases hother
      · exact hss u v hother
    · refine hss u v ?_
      rw [← hother]
      unfold recordAt
      rw [hwi.frame]
      simpa using hname
  · rw [removeRecord_of_not_plain hid hpl]
    exact Confined.refl hss

/-- Strings of a call that go into a record hold no newline, and ids and seats are names of
files. -/
def NamesFiles : Call → Prop
  | .create request answers => ∀ user gid, answers.passwd = some (user, gid) →
      (∀ f, '\n' ∉ (request.session [] user gid).text f) ∧
        PlainName (trim (request.session [] user gid).seat)
  | .setType id type => '/' ∉ id ∧ '\n' ∉ type
  | .setDisplay id display => '/' ∉ id ∧ '\n' ∉ display
  | .setLocked id _ => '/' ∉ id
  | .release id => '/' ∉ id
  | .terminate id => '/' ∉ id

private theorem confined_createSession (hss : SeatsPlain c s.disk.tree)
    (h : NamesFiles (.create rq a)) :
    Confined c s.disk (createSession c s rq a).1.disk := by
  unfold createSession
  split
  · exact Confined.refl hss
  rename_i user gid hpa
  obtain ⟨hlines, hsea⟩ := h user gid hpa
  split
  · exact Confined.refl hss
  split
  · exact Confined.refl hss
  next n hn =>
  have hsd : Confined c s.disk
      (storeRecord c (rq.session (idOf n) user gid) s.disk).1 :=
    confined_storeRecord hss (plainName_idOf n) hlines hsea
  have hsa := confined_andThen hsd
  dsimp only
  split
  · have hrmv := confined_removeRecord hsa.seats (plainName_idOf n).noSlash
    have hre := confined_andThen hrmv
    exact ⟨hsa.within.trans hre.within, hre.seats⟩
  · exact hsa

private theorem confined_updateSession (hss : SeatsPlain c s.disk.tree) (hid : '/' ∉ id)
    (hch : ∀ old : Session, (ch old).id = old.id ∧
      (ch old).seat = old.seat ∧ (old.Clean → ∀ f, '\n' ∉ (ch old).text f)) :
    Confined c s.disk (updateSession c s id ch).1.disk := by
  unfold updateSession
  split
  · exact Confined.refl hss
  rename_i old hold
  have hpl : PlainName id := by
    by_contra hpl
    rw [session_of_not_plain hid hpl] at hold
    cases hold
  obtain ⟨hsa, hsea, hlines⟩ := hch old
  have hcln := clean_of_session hold
  have hrecord : recordAt c s.disk.tree id = some old := by
    rw [session_eq hpl] at hold
    split at hold
    · exact hold
    · cases hold
  refine confined_andThen (confined_storeRecord hss ?_ (hlines hcln) ?_)
  · rw [hsa, id_of_session hold]
    exact hpl
  have htri : trim old.seat = old.seat := (hcln .seat).2
  rw [hsea, htri]
  exact hss id old hrecord

theorem text_setType (ty : List Char) (f : Field) :
    ({ old with sessionType := ty } : Session).text f =
      if f = .sessionType then ty else old.text f := by
  cases f <;> rfl

theorem text_setDisplay (display : List Char) (f : Field) :
    ({ old with display := display } : Session).text f =
      if f = .display then display else old.text f := by
  cases f <;> rfl

theorem text_setLocked (locked : Bool) (f : Field) :
    ({ old with locked := locked } : Session).text f =
      if f = .locked then yesNo locked else old.text f := by
  cases f <;> rfl

private theorem confined_call (hss : SeatsPlain c s.disk.tree) (h : NamesFiles k) :
    Confined c s.disk (call c s k).1.disk := by
  cases k with
  | create r a => exact confined_createSession hss h
  | setType id ty =>
    change Confined c s.disk (setType c s id ty).1.disk
    unfold setType
    split
    · exact Confined.refl hss
    refine confined_updateSession hss h.1 fun old => ⟨rfl, rfl, fun hcln f => ?_⟩
    rw [text_setType]
    split
    · exact h.2
    · exact (hcln f).1
  | setDisplay id di =>
    refine confined_updateSession hss h.1 fun old => ⟨rfl, rfl, fun hcln f => ?_⟩
    rw [text_setDisplay]
    split
    · exact h.2
    · exact (hcln f).1
  | setLocked id l =>
    refine confined_updateSession hss h fun old => ⟨rfl, rfl, fun hcln f => ?_⟩
    rw [text_setLocked]
    split
    · exact (clean_yesNo l).1
    · exact (hcln f).1
  | release | terminate => exact confined_andThen (confined_removeRecord hss h)

def after (c : Config) (s : Service) (k : Call) : Service := (call c s k).1

/-- In every run whose calls pass names of files and no newlines, from records with such seats,
every call changes only files directly inside the directories of the service, and these
directories. -/
theorem calls_confined (c : Config) (s : Service) (calls : List Call)
    (hseats : SeatsPlain c s.disk.tree) (h : ∀ k ∈ calls, NamesFiles k) :
    AllSteps (after c) (fun s k => Within (Allowed c) s.disk (after c s k).disk) s calls := by
  induction calls generalizing s with
  | nil => trivial
  | cons k calls ih =>
    have hsp := confined_call hseats (h k mem_cons_self)
    exact ⟨hsp.within, ih (after c s k) hsp.seats fun k hk => h k (mem_cons_of_mem _ hk)⟩

def started : Service where
  disk := ⟨(FileTree.empty.put ["etc".toList] .directory).put ["etc".toList, "passwd".toList]
    (.file "root:x:0:0::/:/bin/sh\n".toList), []⟩
  nextSession := 1

def loginOn (seat : String) : Call :=
  .create
    { uid := 1000, pid := 7, service := "login".toList, sessionType := "tty".toList,
      sessionClass := [], desktop := [], seat := seat.toList, tty := "tty1".toList, display := [],
      remote := false, remoteUser := [], remoteHost := [] }
    ⟨some ("ann".toList, 1000), true, true, true, true⟩

private theorem namesFiles_login : NamesFiles (loginOn "seat0") := by
  intro usr gid h
  cases h
  refine ⟨fun f => ?_, by decide, by decide, by decide⟩
  cases f <;> decide

theorem seatsPlain_started (pid : Nat) : SeatsPlain (Config.standard pid) started.disk.tree := by
  intro n s h
  have hne : ∀ l other : Location, "run".toList :: l ≠ "etc".toList :: other := by
    intro l other heq
    exact absurd (List.cons.inj heq).1 (by decide)
  have hnd : started.disk.tree.node ("run".toList :: ["rustd".toList, Kind.sessions.name, n]) =
      none := by
    rw [started, FileTree.node_put_of_ne (hne _ _), FileTree.node_put_of_ne (hne _ _)]
    rfl
  rw [recordAt, show (Config.standard pid).root ++ [Kind.sessions.name, n] =
    "run".toList :: ["rustd".toList, Kind.sessions.name, n] from rfl, hnd] at h
  cases h

theorem calls_confined_login :
    AllSteps (after (Config.standard 1))
      (fun s k => Within (Allowed (Config.standard 1)) s.disk (after (Config.standard 1) s k).disk)
      started [loginOn "seat0", .release "r1".toList] :=
  calls_confined (Config.standard 1) started [loginOn "seat0", .release "r1".toList]
    (seatsPlain_started 1) (by
      intro k hk
      rcases mem_cons.mp hk with rfl | hk
      · exact namesFiles_login
      obtain rfl := mem_singleton.mp hk
      change '/' ∉ "r1".toList
      decide)

private theorem head_of_allowed {pid : Nat}
    (h : Allowed (Config.standard pid) (a :: l)) : a = "run".toList := by
  rcases h with ⟨k, u, heq⟩ | ⟨k, hp⟩
  · exact (List.cons.inj heq).1
  · exact (cons_prefix_cons.mp hp).1

/-- An id that is an absolute path makes the service remove that file, and a seat with parent
components makes it write one there. -/
theorem calls_not_confined :
    (∃ loc, ¬Allowed (Config.standard 1) loc ∧
      loc ∈ (after (Config.standard 1) started (.release "/etc/passwd".toList)).disk.changed) ∧
    ∃ loc, ¬Allowed (Config.standard 1) loc ∧
      loc ∈ (after (Config.standard 1) started (loginOn "../../../etc/cron")).disk.changed := by
  have hou : ∀ n, ¬Allowed (Config.standard 1) ["etc".toList, n] := by
    intro n hal
    exact absurd (head_of_allowed hal) (by decide)
  refine ⟨⟨_, hou "passwd".toList, ?_⟩, ⟨_, hou "cron".toList, ?_⟩⟩
  · decide +kernel
  · decide +kernel

end Rustd.Logind
