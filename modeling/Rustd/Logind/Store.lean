import Rustd.Base.Disk
import Rustd.Logind.Session

/-!
# Session files

`src/logind/mod.rs`: the runtime root has the directories `sessions`, `users` and `seats`. A session
record is written to a temporary file next to it and renamed. After every change the summaries of
the users and of the seats are removed and written again from the records.
-/

namespace Rustd.Logind

open Base Disk List

inductive Kind where
  | sessions
  | users
  | seats
  deriving DecidableEq

def Kind.name : Kind → Name
  | .sessions => "sessions".toList
  | .users => "users".toList
  | .seats => "seats".toList

/-- Where the service keeps its files, the number of its process, and the root of the runtime
directories of the users. -/
structure Config where
  root : List Name
  pid : Nat
  userRuntimeRoot : List Char
  plain : dotDot ∉ root

/-- The places when the environment sets no other. -/
def Config.standard (pid : Nat) : Config :=
  ⟨["run".toList, "rustd".toList], pid, "/run/user".toList, by decide⟩

variable (c : Config) (all : List Session) (s : Session) (id : List Char) (t : FileTree)
  (kind : Kind) (d : Disk) (uid : UInt32) (seat : List Char)

/-- `directory` of `src/logind/mod.rs:41`. -/
def directory : Path := ⟨c.root ++ [kind.name], false⟩

/-- `prepare` of `src/logind/mod.rs:139`. -/
def prepare : Disk × Bool :=
  forEach [Kind.sessions, .users, .seats]
    (fun d kind => attempt d (d.createDirAll (directory c kind))) d

def temporary : Name := "tmp.".toList ++ decimal c.pid

/-- `atomic_write` of `src/logind/mod.rs:57`. -/
def atomicWrite (p : Path) (text : List Char) (d : Disk) : Disk × Bool :=
  let tmp := p.withExtension (temporary c)
  andThen (attempt d (d.writeFile tmp text)) fun d => attempt d (d.rename tmp p)

def recordPath : Path := (directory c .sessions).join id

/-- `session` of `src/logind/mod.rs:233`. -/
def session (id : List Char) : Option Session :=
  (t.readFile (recordPath c id)).map fun text => Session.fromMap id (parse text)

def recordAt (name : Name) : Option Session :=
  match t.node (c.root ++ [Kind.sessions.name, name]) with
  | some (.file text) => some (Session.fromMap name (parse text))
  | _ => none

/-- `sessions` of `src/logind/mod.rs:214`. -/
def sessions (t : FileTree) : List Session :=
  ((t.children (c.root ++ [Kind.sessions.name])).filterMap (recordAt c t)).insertionSort
    fun a b => a.id ≤ b.id

def filesIn : List Location :=
  ((t.children (c.root ++ [kind.name])).map fun name => c.root ++ [kind.name, name]).filter
    fun loc => match t.node loc with
      | some (.file _) => true
      | _ => false

def idList (sessions : List Session) : List Char :=
  [' '].intercalate (sessions.map Session.id)

/-- Part of `rebuild_summaries`, `src/logind/mod.rs:272`. -/
def userSummary (entries : List Session) (first : Session) : List Char :=
  "UID=".toList ++ decimal uid.toNat ++ "\nGID=".toList ++ decimal first.gid.toNat ++
    "\nUSER=".toList ++ first.user ++ "\nSTATE=active\nRUNTIME=".toList ++
    c.userRuntimeRoot ++ "/".toList ++ decimal uid.toNat ++ "\nSESSIONS=".toList ++
    idList entries ++ "\n".toList

/-- Part of `rebuild_summaries`, `src/logind/mod.rs:272`. -/
def seatSummary (entries : List Session) (first : Session) : List Char :=
  "ID=".toList ++ seat ++ "\nACTIVE_SESSION=".toList ++ first.id ++ "\nSESSIONS=".toList ++
    idList entries ++ "\n".toList

def writeUser : Disk × Bool :=
  let entries := all.filter fun session => session.uid == uid
  match entries with
  | [] => (d, true)
  | first :: _ => atomicWrite c ((directory c .users).join (decimal uid.toNat))
      (userSummary c uid entries first) d

def writeSeat : Disk × Bool :=
  let entries := all.filter fun session => session.seat == seat
  match entries with
  | [] => (d, true)
  | first :: _ => atomicWrite c ((directory c .seats).join seat) (seatSummary seat entries first) d

def clearSummaries (kind : Kind) : Disk × Bool :=
  forEach (filesIn c d.tree kind) (fun d loc => attempt d (d.removeEntry loc)) d

def writeSummaries : Disk × Bool :=
  andThen (forEach ((all.map Session.uid).dedup.insertionSort (· ≤ ·)) (writeUser c all) d)
    (forEach ((all.map Session.seat).dedup.insertionSort (· ≤ ·)) (writeSeat c all))

/-- `rebuild_summaries` of `src/logind/mod.rs:272`. -/
def rebuildSummaries : Disk × Bool :=
  andThen (prepare c d) fun d =>
    andThen (forEach [Kind.users, .seats] (clearSummaries c) d) fun d =>
      writeSummaries c (sessions c d.tree) d

/-- The part of `save` that writes the record. -/
def storeRecord : Disk × Bool :=
  andThen (prepare c d) (atomicWrite c (recordPath c s.id) s.serialize)

/-- `save` of `src/logind/mod.rs:244`. -/
def save : Disk × Bool := andThen (storeRecord c s d) (rebuildSummaries c)

/-- The part of `remove` that removes the record. -/
def removeRecord : Disk × Bool :=
  if (d.tree.resolve (recordPath c id)).isSome then attempt d (d.removeFile (recordPath c id))
  else (d, true)

/-- `remove` of `src/logind/mod.rs:259`. -/
def remove : Disk × Bool :=
  andThen (removeRecord c id d) (rebuildSummaries c)

/-! ### Which entries are changed -/

variable {c} {d d' : Disk} {t : FileTree} {kind : Kind} {loc : Location} {name u : Name}

def Inside (c : Config) (kind : Kind) (loc : Location) : Prop :=
  ∃ name, loc = c.root ++ [kind.name, name]

def OnTheWay (c : Config) (loc : Location) : Prop := ∃ kind : Kind, loc <+: c.root ++ [kind.name]

def Summary (c : Config) (loc : Location) : Prop :=
  Inside c .users loc ∨ Inside c .seats loc ∨ OnTheWay c loc

def IsTemporary (c : Config) (name : Name) : Prop := ∃ stem, name = stem ++ '.' :: temporary c

private theorem plainName_kind (kind : Kind) : PlainName kind.name := by
  cases kind <;> exact ⟨by decide, by decide, by decide⟩

private theorem dotDot_not_mem_directory (c : Config) (kind : Kind) :
    dotDot ∉ (directory c kind).components := by
  simp only [directory, mem_append, mem_singleton, not_or]
  exact ⟨c.plain, (plainName_kind kind).notParent.symm⟩

private theorem temporary_letters (c : Config) : '/' ∉ temporary c ∧ 2 ≤ (temporary c).length := by
  constructor
  · simp only [temporary, mem_append, not_or]
    refine ⟨by decide, fun hmem => ?_⟩
    have := isDigit_of_mem_decimal hmem
    revert this
    decide
  · rw [temporary, length_append]
    have : ("tmp.".toList).length = 4 := by decide
    omega

private theorem components_join (h : PlainName name) (kind : Kind) :
    ((directory c kind).join name).components = c.root ++ [kind.name, name] := by
  rw [h.join, directory, append_assoc, singleton_append]

private theorem dotDot_not_mem_join (h : PlainName name) (kind : Kind) :
    dotDot ∉ ((directory c kind).join name).components := by
  rw [h.join]
  simp only [mem_append, mem_singleton, not_or]
  exact ⟨dotDot_not_mem_directory c kind, h.notParent.symm⟩

theorem entry_join (h : PlainName name) (hent : t.entry ((directory c kind).join name) = some loc) :
    loc = c.root ++ [kind.name, name] := by
  rw [(FileTree.entry_eq (dotDot_not_mem_join h kind) hent).1, components_join h]

private theorem withExtension_join (h : PlainName name) (kind : Kind) (e : Name) :
    ((directory c kind).join name).withExtension e =
      ⟨c.root ++ [kind.name, (splitExtension name).1 ++ '.' :: e], false⟩ := by
  rw [h.join, Path.withExtension, h.fileName]
  simp [directory]

private theorem entry_withExtension (h : PlainName name)
    (hent : t.entry (((directory c kind).join name).withExtension (temporary c)) = some loc) :
    loc = c.root ++ [kind.name, (splitExtension name).1 ++ '.' :: temporary c] := by
  have hpl := h.withExtension (temporary_letters c).1 (temporary_letters c).2
  rw [withExtension_join h] at hent
  refine (FileTree.entry_eq ?_ hent).1
  simp only [mem_append, mem_cons, not_mem_nil, or_false, not_or]
  exact ⟨c.plain, (plainName_kind kind).notParent.symm, hpl.notParent.symm⟩

def Written (c : Config) (kind : Kind) (name : Name) (loc : Location) : Prop :=
  loc = c.root ++ [kind.name, name] ∨
    loc = c.root ++ [kind.name, (splitExtension name).1 ++ '.' :: temporary c]

private theorem within_atomicWrite (h : PlainName name) (kind : Kind) (text : List Char)
    (d : Disk) :
    Within (Written c kind name) d (atomicWrite c ((directory c kind).join name) text d).1 := by
  apply within_andThen
  · refine within_attempt fun d' hwt => within_writeFile hwt fun loc hloc => ?_
    exact .inr (entry_withExtension h hloc)
  intro _
  refine within_attempt fun d' hr => within_rename hr ?_ ?_
  · exact fun loc hloc => .inr (entry_withExtension h hloc)
  · exact fun loc hloc => .inl (entry_join h hloc)

variable {text : List Char} {s : Session}

private theorem within_atomicWrite_failed (h : PlainName name)
    (hfa : (atomicWrite c ((directory c kind).join name) text d).2 = false) :
    Within (· = c.root ++ [kind.name, (splitExtension name).1 ++ '.' :: temporary c])
      d (atomicWrite c ((directory c kind).join name) text d).1 := by
  apply within_andThen
  · exact within_attempt fun d' hwt => within_writeFile hwt fun loc hloc =>
      entry_withExtension h hloc
  intro hw
  rw [atomicWrite, andThen, if_pos hw] at hfa
  refine within_attempt fun d' hr => ?_
  rw [hr] at hfa
  cases hfa

theorem inside_of_written (h : Written c kind name loc) : Inside c kind loc := by
  rcases h with rfl | rfl
  · exact ⟨_, rfl⟩
  · exact ⟨_, rfl⟩

private theorem atomicWrite_node (h : PlainName name)
    (hok : (atomicWrite c ((directory c kind).join name) text d).2 = true) :
    FileTree.validPath ((directory c kind).join name) = true ∧
    (atomicWrite c ((directory c kind).join name) text d).1.tree.node
      (c.root ++ [kind.name, name]) = some (.file text) := by
  unfold atomicWrite at hok ⊢
  obtain ⟨hwt, hrun⟩ := andThen_ok hok
  rw [hrun] at hok ⊢
  obtain ⟨tmp, htmp, hput, hnd⟩ := writeFile_eq_some (attempt_ok hwt)
  obtain ⟨a, b, co, ha, hb, hc, -, hre⟩ := rename_eq_some (attempt_ok hok)
  obtain rfl := entry_join h hb
  obtain rfl := entry_withExtension h ha
  obtain rfl := entry_withExtension h htmp
  rw [hnd, Option.some.injEq, Node.file.injEq] at hc
  exact ⟨FileTree.entry_valid hb, hc ▸ hre⟩

private theorem atomicWrite_nodes (h : PlainName name) (kind : Kind) (text : List Char) (d : Disk)
    (loc : Location) : let d' := (atomicWrite c ((directory c kind).join name) text d).1
    d'.tree.node loc = d.tree.node loc ∨ d'.tree.node loc = none ∨
      d'.tree.node loc = some (.file text) := by
  simp only [atomicWrite]
  cases hwt : d.writeFile (((directory c kind).join name).withExtension (temporary c)) text with
  | none => exact .inl rfl
  | some d₁ =>
    obtain ⟨tmp, htmp, rfl, htx⟩ := writeFile_eq_some hwt
    simp only [attempt, andThen, if_true]
    have hput : ∀ loc, (d.put tmp (.file text)).tree.node loc = d.tree.node loc ∨
        (d.put tmp (.file text)).tree.node loc = some (.file text) := by
      intro loc
      by_cases hloc : loc = tmp
      · exact .inr (hloc ▸ htx)
      · exact .inl (FileTree.node_put_of_ne hloc _)
    cases hrn : (d.put tmp (.file text)).rename
        (((directory c kind).join name).withExtension (temporary c))
        ((directory c kind).join name) with
    | none =>
      rcases hput loc with hloc | hloc
      · exact .inl hloc
      · exact .inr (.inr hloc)
    | some d₂ =>
      obtain ⟨a, b, content, ha, -, hc, rfl, hre⟩ := rename_eq_some hrn
      obtain rfl := (entry_withExtension h ha).trans (entry_withExtension h htmp).symm
      obtain rfl : text = content := by simpa [htx] using hc
      by_cases hb : loc = b
      · exact .inr (.inr (hb ▸ hre))
      have hnd : (((d.put a (.file text)).unlink a).put b (.file text)).tree.node loc =
          ((d.put a (.file text)).tree.unlink a).node loc := FileTree.node_put_of_ne hb _
      dsimp only
      rw [hnd, FileTree.node_unlink (by rw [htx]; simp)]
      split
      · exact .inr (.inl rfl)
      rcases hput loc with hloc | hloc
      · exact .inl hloc
      · exact .inr (.inr hloc)

private theorem within_prepare (d : Disk) : Within (OnTheWay c) d (prepare c d).1 := by
  refine within_forEach (fun kind _ d => within_attempt fun d' hdrs => ?_) d
  exact (within_createDirAll (dotDot_not_mem_directory c kind) hdrs).mono
    fun loc hloc => ⟨kind, hloc.1⟩

private theorem within_clearSummaries (d : Disk) (kind : Kind) :
    Within (Inside c kind) d (clearSummaries c d kind).1 := by
  refine within_forEach (fun loc hloc d => within_attempt fun d' hrv => ?_) d
  obtain ⟨hmem, -⟩ := mem_filter.mp hloc
  obtain ⟨name, -, rfl⟩ := List.mem_map.mp hmem
  exact within_removeEntry hrv ⟨name, rfl⟩

theorem plainName_decimal (n : Nat) : PlainName (decimal n) := by
  have hdg : ∀ c ∈ decimal n, c.isDigit = true := fun c hc => isDigit_of_mem_decimal hc
  have hne : decimal n ≠ [] := Nat.toDigits_ne_nil
  refine ⟨fun hmem => ?_, ?_, ?_⟩
  · have := hdg '/' hmem
    revert this
    decide
  · simp only [keptComponent, Bool.and_eq_true, bne_iff_ne]
    refine ⟨hne, fun hdot => ?_⟩
    have := hdg '.' (hdot ▸ mem_cons_self)
    revert this
    decide
  · intro hdt
    have := hdg '.' (hdt ▸ mem_cons_self)
    revert this
    decide

private theorem within_writeSummaries {all : List Session} (h : ∀ s ∈ all, PlainName s.seat)
    (d : Disk) :
    Within (Summary c) d (writeSummaries c all d).1 := by
  apply within_andThen
  · refine within_forEach (fun uid _ d => ?_) d
    unfold writeUser
    dsimp only
    split
    · exact Within.refl d
    · exact (within_atomicWrite (plainName_decimal uid.toNat) .users _ d).mono
        fun loc hloc => .inl (inside_of_written hloc)
  · intro _
    refine within_forEach (fun seat hsea d => ?_) _
    have hpl : PlainName seat := by
      obtain ⟨s, hs, rfl⟩ := List.mem_map.mp (mem_dedup.mp ((mem_insertionSort _).mp hsea))
      exact h s hs
    unfold writeSeat
    dsimp only
    split
    · exact Within.refl d
    · exact (within_atomicWrite hpl .seats _ d).mono
        fun loc hloc => .inr (.inl (inside_of_written hloc))

/-! ### The records -/

private theorem not_summary_record (u : Name) : ¬Summary c (c.root ++ [Kind.sessions.name, u]) := by
  have hkn : ∀ kind, kind ≠ Kind.sessions →
      ¬Inside c kind (c.root ++ [Kind.sessions.name, u]) := by
    rintro kind hkn ⟨v, heq⟩
    have hna := append_cancel_left heq
    rw [List.cons.injEq] at hna
    revert hna
    cases kind
    · exact absurd rfl hkn
    · rintro ⟨hname, -⟩
      exact absurd hname (by decide)
    · rintro ⟨hname, -⟩
      exact absurd hname (by decide)
  rintro (h | h | ⟨kind, h⟩)
  · exact hkn .users (by decide) h
  · exact hkn .seats (by decide) h
  have := h.length_le
  simp only [length_append, length_cons, length_nil] at this
  omega

/-- No record has a seat that leaves the directory. -/
def SeatsPlain (c : Config) (t : FileTree) : Prop :=
  ∀ name s, recordAt c t name = some s → PlainName s.seat

private theorem mem_sessions : s ∈ sessions c t ↔ ∃ name, recordAt c t name = some s := by
  rw [sessions, mem_insertionSort, mem_filterMap]
  constructor
  · rintro ⟨name, -, hrecord⟩
    exact ⟨name, hrecord⟩
  rintro ⟨name, hrecord⟩
  refine ⟨name, ?_, hrecord⟩
  rw [FileTree.mem_children, append_assoc, singleton_append]
  intro hnn
  rw [recordAt, hnn] at hrecord
  cases hrecord

theorem recordAt_of_within (h : Within (Summary c) d d') (name : Name) :
    recordAt c d'.tree name = recordAt c d.tree name := by
  unfold recordAt
  rw [h.frame _ (not_summary_record name)]

theorem within_rebuildSummaries (h : SeatsPlain c d.tree) :
    Within (Summary c) d (rebuildSummaries c d).1 := by
  have hpr : Within (Summary c) d (prepare c d).1 :=
    (within_prepare d).mono fun loc hloc => .inr (.inr hloc)
  have hcl : Within (Summary c) (prepare c d).1
      (forEach [Kind.users, .seats] (clearSummaries c) (prepare c d).1).1 := by
    refine within_forEach (fun kind hkn d => ?_) _
    refine (within_clearSummaries d kind).mono fun loc hloc => ?_
    rcases mem_cons.mp hkn with rfl | hkn
    · exact .inl hloc
    · obtain rfl := mem_singleton.mp hkn
      exact .inr (.inl hloc)
  refine within_andThen hpr fun _ => within_andThen hcl fun _ => ?_
  refine within_writeSummaries (fun s hs => ?_) _
  obtain ⟨name, hname⟩ := mem_sessions.mp hs
  rw [recordAt_of_within (hpr.trans hcl)] at hname
  exact h name s hname

theorem session_eq (h : PlainName name) :
    session c t name =
      if FileTree.validPath (recordPath c name) then recordAt c t name else none := by
  unfold session
  split
  · next hvl =>
    have htg : (recordPath c name).trailing = false := by rw [recordPath, h.join]
    rw [FileTree.readFile_eq hvl htg (dotDot_not_mem_join h .sessions), recordPath,
      components_join h, recordAt]
    rcases t.node (c.root ++ [Kind.sessions.name, name]) with _ | (_ | _ | _ | _) <;> rfl
  · next hinvalid =>
    rw [FileTree.readFile, FileTree.resolve, if_neg hinvalid]
    rfl

theorem session_congr (h : PlainName name)
    (hrecord : recordAt c t' name = recordAt c t name) : session c t' name = session c t name := by
  rw [session_eq h, session_eq h, hrecord]

theorem within_storeRecord (h : PlainName s.id) (d : Disk) :
    Within (fun loc => Written c .sessions s.id loc ∨ OnTheWay c loc) d (storeRecord c s d).1 := by
  apply within_andThen
  · exact (within_prepare d).mono fun loc hloc => .inr hloc
  · intro _
    exact (within_atomicWrite h .sessions s.serialize _).mono fun loc hloc => .inl hloc

theorem recordAt_storeRecord_of_ne (h : PlainName s.id) (hne : name ≠ s.id)
    (hte : ¬IsTemporary c name) (d : Disk) :
    recordAt c (storeRecord c s d).1.tree name = recordAt c d.tree name := by
  unfold recordAt
  rw [(within_storeRecord h d).frame]
  rintro ((heq | heq) | hway)
  · exact hne (by simpa using heq)
  · exact hte ⟨(splitExtension s.id).1, by simpa using heq⟩
  · exact not_summary_record name (.inr (.inr hway))

theorem storeRecord_ok (h : PlainName s.id) (hok : (storeRecord c s d).2 = true) :
    recordAt c (storeRecord c s d).1.tree s.id = some (Session.fromMap s.id (parse s.serialize)) ∧
      FileTree.validPath (recordPath c s.id) = true := by
  unfold storeRecord at hok ⊢
  obtain ⟨-, hrun⟩ := andThen_ok hok
  rw [hrun] at hok ⊢
  obtain ⟨hvl, hnd⟩ := atomicWrite_node h hok
  refine ⟨?_, hvl⟩
  rw [recordAt, recordPath, hnd]

theorem recordAt_storeRecord (h : PlainName s.id)
    (hother : recordAt c (storeRecord c s d).1.tree name = some v) :
    recordAt c d.tree name = some v ∨ v = Session.fromMap name (parse s.serialize) := by
  have hpr : recordAt c (prepare c d).1.tree name = recordAt c d.tree name :=
    recordAt_of_within ((within_prepare d).mono fun loc hloc => .inr (.inr hloc)) name
  unfold storeRecord andThen at hother
  split at hother
  · rw [← hpr]
    rcases atomicWrite_nodes h .sessions s.serialize (prepare c d).1
        (c.root ++ [Kind.sessions.name, name]) with hnd | hnd | hnd
    · left
      unfold recordAt at hother ⊢
      rwa [recordPath, hnd] at hother
    · rw [recordAt, recordPath, hnd] at hother
      cases hother
    right
    rw [recordAt, recordPath, hnd] at hother
    exact (Option.some.inj hother).symm
  · rw [hpr] at hother
    exact .inl hother

theorem storeRecord_failed (h : PlainName s.id) (hte : ¬IsTemporary c s.id)
    (hfa : (storeRecord c s d).2 = false) :
    recordAt c (storeRecord c s d).1.tree s.id = recordAt c d.tree s.id := by
  have hwi : Within (fun loc => loc = c.root ++ [Kind.sessions.name,
      (splitExtension s.id).1 ++ '.' :: temporary c] ∨ OnTheWay c loc) d (storeRecord c s d).1 := by
    apply within_andThen
    · exact (within_prepare d).mono fun loc hloc => .inr hloc
    intro hpp
    rw [storeRecord, andThen, if_pos hpp] at hfa
    exact (within_atomicWrite_failed h hfa).mono fun loc hloc => .inl hloc
  unfold recordAt
  rw [hwi.frame]
  rintro (heq | hway)
  · exact hte ⟨(splitExtension s.id).1, by simpa using heq⟩
  · exact not_summary_record s.id (.inr (.inr hway))

theorem within_removeRecord (h : PlainName name) (d : Disk) :
    Within (· = c.root ++ [Kind.sessions.name, name]) d (removeRecord c name d).1 := by
  unfold removeRecord
  split
  · exact within_attempt fun d' hrv => within_removeFile hrv fun loc hloc =>
      entry_join h hloc
  · exact Within.refl d

end Rustd.Logind
