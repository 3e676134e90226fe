import Rustd.Logind.Calls

/-!
# Records read back

The calls of the login service against a table of what every session was last given. While ids and
seats are names of files and the strings of the caller can stand on a line of a record, every record
is read as the table says: no string of one field reaches another field or another record.
-/

namespace Rustd.Logind

open Base Disk List Option Function

abbrev Given := List Char → Option Session

def Call.gives (k : Call) (g : Given) (id : List Char) : Option Session :=
  match k with
  | .create request answers => answers.passwd.map fun entry => request.session id entry.1 entry.2
  | .setType _ type => (g id).map fun old => { old with sessionType := type }
  | .setDisplay _ display => (g id).map fun old => { old with display := display }
  | .setLocked _ locked => (g id).map fun old => { old with locked := locked }
  | .release _ => g id
  | .terminate _ => g id

def Given.next (g : Given) (k : Call) : Outcome → Given
  | .unchanged => g
  | .stored id => update g id (k.gives g id)
  | .removed id => update g id none

def track (c : Config) (sg : Service × Given) (k : Call) : Service × Given :=
  ((call c sg.1 k).1, sg.2.next k (call c sg.1 k).2)

/-- Every record reads as it was given. -/
def Agrees (c : Config) (t : FileTree) (g : Given) : Prop :=
  ∀ id, PlainName id → ¬IsTemporary c id → session c t id = g id

/-- The condition on a call: its strings can stand on a line of a record, its id has no slash and
its seat is the name of a file. -/
def Storable : Call → Prop
  | .create request answers => ∀ user gid, answers.passwd = some (user, gid) →
      (request.session [] user gid).Clean ∧ PlainName (request.session [] user gid).seat
  | .setType id type => '/' ∉ id ∧ Clean type
  | .setDisplay id display => '/' ∉ id ∧ Clean display
  | .setLocked id _ => '/' ∉ id
  | .release id => '/' ∉ id
  | .terminate id => '/' ∉ id

variable {c : Config} {d : Disk} {s : Service} {g g' : Given} {id : List Char} {new : Session}

structure Tracked (c : Config) (t : FileTree) (g : Given) : Prop where
  seats : SeatsPlain c t
  agrees : Agrees c t g

variable {k : Call} {t : FileTree}

theorem Tracked.congr (h : Tracked c t g) (hsa : ∀ id, ¬IsTemporary c id → g' id = g id) :
    Tracked c t g' :=
  ⟨h.seats, fun id hid hte => (h.agrees id hid hte).trans (hsa id hte).symm⟩

private theorem tracked_andThen (h : Tracked c r.1.tree g) :
    Tracked c (andThen r (rebuildSummaries c)).1.tree g := by
  refine ⟨(confined_andThen (Confined.refl h.seats)).seats, fun id hid hte => ?_⟩
  rw [← h.agrees id hid hte]
  unfold andThen
  split
  · exact session_congr hid (recordAt_of_within (within_rebuildSummaries h.seats) id)
  · rfl

private theorem tracked_storeRecord (h : Tracked c d.tree g) (hid : PlainName new.id)
    (hcln : new.Clean)
    (hsea : PlainName new.seat) :
    Tracked c (storeRecord c new d).1.tree
      (if (storeRecord c new d).2 then update g new.id (some new) else g) := by
  have htri : trim new.seat = new.seat := (hcln .seat).2
  refine ⟨(confined_storeRecord h.seats hid (fun f => (hcln f).1) ?_).seats, ?_⟩
  · rw [htri]
    exact hsea
  intro id hpl hte
  by_cases hnew : id = new.id
  · subst hnew
    split
    · next hok =>
      obtain ⟨hrecord, hvl⟩ := storeRecord_ok hid hok
      rw [session_eq hid, if_pos hvl, hrecord, fromMap_parse_serialize hcln, update_self]
    next hfa =>
    rw [← h.agrees _ hid hte]
    exact session_congr hid (storeRecord_failed hid hte (Bool.eq_false_iff.mpr hfa))
  · have hsa : session c (storeRecord c new d).1.tree id = g id := by
      rw [← h.agrees id hpl hte]
      exact session_congr hpl (recordAt_storeRecord_of_ne hid hnew hte d)
    rw [hsa]
    split
    · rw [update_of_ne hnew]
    · rfl

private theorem session_removeRecord (hid : PlainName id) (hok : (removeRecord c id d).2 = true) :
    session c (removeRecord c id d).1.tree id = none := by
  unfold removeRecord at hok ⊢
  split at hok
  · next hexists =>
    rw [if_pos hexists]
    obtain ⟨loc, hloc, -, hnn⟩ := removeFile_eq_some (attempt_ok hok)
    obtain rfl := entry_join hid hloc
    rw [session_eq hid]
    split
    · rw [recordAt, hnn]
    · rfl
  · next hmg =>
    rw [if_neg hmg, session, FileTree.readFile]
    rw [Bool.not_eq_true, isSome_eq_false_iff, isNone_iff_eq_none] at hmg
    rw [hmg]
    rfl

private theorem tracked_removeRecord (h : Tracked c d.tree g) (hid : '/' ∉ id) :
    Tracked c (removeRecord c id d).1.tree
      (if (removeRecord c id d).2 then update g id none else g) := by
  refine ⟨(confined_removeRecord h.seats hid).seats, fun other hpl hte => ?_⟩
  by_cases hother : other = id
  · subst hother
    split
    · next hok => rw [session_removeRecord hpl hok, update_self]
    rename_i hfa
    rw [← h.agrees other hpl hte]
    unfold removeRecord at hfa ⊢
    split
    · next hexists =>
      rw [if_pos hexists] at hfa
      cases hrv : d.removeFile (recordPath c other) with
      | none => rfl
      | some d' =>
        rw [hrv] at hfa
        exact absurd rfl hfa
    · rfl
  · have hsa : session c (removeRecord c id d).1.tree other = g other := by
      rw [← h.agrees other hpl hte]
      by_cases hid' : PlainName id
      · refine session_congr hpl ?_
        unfold recordAt
        rw [(within_removeRecord hid' d).frame]
        simpa using hother
      · rw [removeRecord_of_not_plain hid hid']
    rw [hsa]
    split
    · rw [update_of_ne hother]
    · rfl

private theorem not_isTemporary_idOf (n : Nat) : ¬IsTemporary c (idOf n) := by
  rintro ⟨st, heq⟩
  have hmem : '.' ∈ idOf n := heq ▸ mem_append_right _ mem_cons_self
  rcases mem_cons.mp hmem with hr | hdg
  · exact absurd hr (by decide)
  · exact absurd (isDigit_of_mem_decimal hdg) (by decide)

private theorem session_freshNumber (h : freshNumber c t f i = some n) :
    session c t (idOf n) = none := by
  induction f generalizing i with
  | zero => cases h
  | succ f ih =>
    unfold freshNumber at h
    split at h
    · next hnn =>
      cases h
      exact isNone_iff_eq_none.mp hnn
    · exact ih h

private theorem tracked_createSession (h : Tracked c s.disk.tree g)
    (hsb : Storable (.create rq a)) :
    let k := Call.create rq a
    Tracked c (createSession c s rq a).1.disk.tree (g.next k (createSession c s rq a).2) := by
  dsimp only
  unfold createSession
  split
  · exact h
  rename_i user gid hpa
  split
  · exact h
  split
  · exact h
  next n hn =>
  obtain ⟨hcln, hsea⟩ := hsb user gid hpa
  have hpl : PlainName (rq.session (idOf n) user gid).id := plainName_idOf n
  have hgi : (Call.create rq a).gives g
      (rq.session (idOf n) user gid).id = some (rq.session (idOf n) user gid) := by
    rw [Call.gives, hpa]
    rfl
  have hsd := tracked_storeRecord h hpl hcln hsea
  dsimp only
  split
  · next hpipe =>
    -- the record is removed again, which leaves the id as free as it was
    have hsa := andThen_ok (by
      simp only [Bool.and_eq_true] at hpipe
      exact hpipe.1.1.1)
    rw [if_pos hsa.1] at hsd
    have hrmv := tracked_removeRecord (tracked_andThen hsd) hpl.noSlash
    have hfre : g (idOf n) = none := by
      rw [← h.agrees _ (plainName_idOf n) (not_isTemporary_idOf n)]
      exact session_freshNumber hn
    refine (tracked_andThen hrmv).congr fun id _ => ?_
    split
    · rw [update_idem]
      change g id = update g (idOf n) none id
      rw [← hfre, update_eq_self]
    · rw [Given.next, hgi]
  · refine (tracked_andThen hsd).congr fun id _ => ?_
    split
    · rw [Given.next, hgi]
    · rfl

private theorem tracked_updateSession (h : Tracked c s.disk.tree g) (hid : '/' ∉ id)
    (hch : ∀ old : Session, (ch old).id = old.id ∧
      (ch old).seat = old.seat ∧ (old.Clean → (ch old).Clean))
    (hgi : k.gives g id = (g id).map ch) :
    Tracked c (updateSession c s id ch).1.disk.tree (g.next k (updateSession c s id ch).2) := by
  unfold updateSession
  split
  · exact h
  rename_i old hold
  have hpl : PlainName id := by
    by_contra hpl
    rw [session_of_not_plain hid hpl] at hold
    cases hold
  obtain ⟨hsa, hsea, hcln⟩ := hch old
  obtain rfl := id_of_session hold
  have hrecord : recordAt c s.disk.tree old.id = some old := by
    rw [session_eq hpl] at hold
    split at hold
    · exact hold
    · cases hold
  have hsd := tracked_storeRecord h (hsa.symm ▸ hpl) (hcln (clean_of_session hold))
    (hsea.symm ▸ h.seats _ old hrecord)
  refine (tracked_andThen hsd).congr fun id hte => ?_
  dsimp only
  split
  · rw [Given.next, hsa, hgi]
    by_cases hother : id = old.id
    · subst hother
      rw [update_self, update_self, ← h.agrees _ hpl hte, hold]
      rfl
    · rw [update_of_ne hother, update_of_ne hother]
  · rfl

private theorem tracked_releaseSession (h : Tracked c s.disk.tree g) (hid : '/' ∉ id) (k : Call) :
    Tracked c (releaseSession c s id).1.disk.tree (g.next k (releaseSession c s id).2) := by
  have hrmv := tracked_removeRecord h hid
  refine (tracked_andThen hrmv).congr fun v _ => ?_
  unfold releaseSession
  dsimp only
  split
  · rfl
  · rfl

private theorem tracked_call (h : Tracked c s.disk.tree g) (hsb : Storable k) :
    Tracked c (call c s k).1.disk.tree (g.next k (call c s k).2) := by
  cases k with
  | create r a => exact tracked_createSession h hsb
  | setType id ty =>
    change Tracked c (setType c s id ty).1.disk.tree (g.next _ (setType c s id ty).2)
    unfold setType
    split
    · exact h
    refine tracked_updateSession (k := .setType id ty) h hsb.1 ?_ rfl
    refine fun old => ⟨rfl, rfl, fun hcln f => ?_⟩
    rw [text_setType]
    split
    · exact hsb.2
    · exact hcln f
  | setDisplay id di =>
    refine tracked_updateSession (k := .setDisplay id di) h hsb.1 ?_ rfl
    refine fun old => ⟨rfl, rfl, fun hcln f => ?_⟩
    rw [text_setDisplay]
    split
    · exact hsb.2
    · exact hcln f
  | setLocked id l =>
    refine tracked_updateSession (k := .setLocked id l) h hsb ?_ rfl
    refine fun old => ⟨rfl, rfl, fun hcln f => ?_⟩
    rw [text_setLocked]
    split
    · exact clean_yesNo l
    · exact hcln f
  | release | terminate => exact tracked_releaseSession h hsb _

/-- In every run whose calls are storable, from records with seats that are names of files, every
record is read as it was last given. -/
theorem records_as_given (c : Config) (s : Service) (calls : List Call)
    (hseats : SeatsPlain c s.disk.tree) (h : ∀ k ∈ calls, Storable k) :
    Agrees c (calls.foldl (track c) (s, session c s.disk.tree)).1.disk.tree
      (calls.foldl (track c) (s, session c s.disk.tree)).2 := by
  have hstr : Tracked c s.disk.tree (session c s.disk.tree) := ⟨hseats, fun _ _ _ => rfl⟩
  have hrun : ∀ sg : Service × Given, Tracked c sg.1.disk.tree sg.2 →
      Tracked c (calls.foldl (track c) sg).1.disk.tree (calls.foldl (track c) sg).2 := by
    induction calls with
    | nil => exact fun sg hsg => hsg
    | cons k calls ih =>
      intro sg hsg
      exact ih (fun k hk => h k (mem_cons_of_mem _ hk)) _ (tracked_call hsg (h k mem_cons_self))
  exact (hrun _ hstr).agrees

private theorem storable_login : Storable (loginOn "seat0") := by
  intro usr gid h
  cases h
  refine ⟨fun f => ?_, by decide, by decide, by decide⟩
  cases f <;> decide

theorem records_as_given_login :
    let calls := [loginOn "seat0", .setDisplay "r1".toList ":0".toList]
    let sg := calls.foldl (track (Config.standard 1))
      (started, session (Config.standard 1) started.disk.tree)
    Agrees (Config.standard 1) sg.1.disk.tree sg.2 :=
  records_as_given (Config.standard 1) started
    [loginOn "seat0", .setDisplay "r1".toList ":0".toList] (seatsPlain_started 1) (by
      intro k hk
      rcases mem_cons.mp hk with rfl | hk
      · exact storable_login
      obtain rfl := mem_singleton.mp hk
      change '/' ∉ "r1".toList ∧ Clean ":0".toList
      decide)

/-- A display with a second line makes the session one of the superuser. -/
theorem display_forges_uid :
    let calls := [loginOn "seat0", .setDisplay "r1".toList ":0\nUID=0".toList]
    let sg := calls.foldl (track (Config.standard 1))
      (started, session (Config.standard 1) started.disk.tree)
    ¬Agrees (Config.standard 1) sg.1.disk.tree sg.2 ∧
      (session (Config.standard 1) sg.1.disk.tree "r1".toList).map Session.uid = some 0 ∧
      (sg.2 "r1".toList).map Session.uid = some 1000 := by
  intro calls sg
  have hrea : (session (Config.standard 1) sg.1.disk.tree "r1".toList).map Session.uid =
      some 0 := by
    decide +kernel
  have hgi : (sg.2 "r1".toList).map Session.uid = some 1000 := by
    decide +kernel
  refine ⟨fun h => ?_, hrea, hgi⟩
  have hid : "r1".toList = idOf 1 := by decide
  rw [hid] at hrea hgi
  rw [h (idOf 1) (plainName_idOf 1) (not_isTemporary_idOf 1), hgi] at hrea
  exact absurd hrea (by decide)

end Rustd.Logind
