import Rustd.Base.Run
import Rustd.JournalFile.AppendEntry

/-!
# Journal files from their creation on

A new file is well-formed for the empty log, and appending to it keeps it well-formed for what was
appended. An append succeeds as long as there is room for it. Closing and reopening the file keep
what it stores.
-/

namespace Rustd.JournalFile

open Base Program List

section

def Links.none : Links :=
  { bucket := fun _ _ => ⟨0, 0⟩
    nextHash := fun _ => 0
    headData := fun _ => 0
    nextField := fun _ => 0
    entryOffset := fun _ => 0
    entryArray := fun _ => 0
    nEntries := fun _ => 0
    nextArray := fun _ => 0 }

def newObjects : List Kind := [.table true, .table false]

def newHeader (ids : Identities) : JournalFileHeader :=
  { firstHeader ids with
    dataHashTableOffset := 288, dataHashTableSize := buckets true * 16
    fieldHashTableOffset := 16688, fieldHashTableSize := buckets false * 16
    tailObjectOffset := 16672, nObjects := 2, arenaSize := arenaEnd newObjects - journalHeaderSize }

variable {L : Links} {ks : List Kind} {f : File} {supported sup : Bool} {E : Errno → Prop}

private theorem select_newObjects (h : ∀ d, P (.table d) = false) : select P newObjects = [] := by
  apply eq_nil_iff_forall_not_mem.mpr
  intro p hp
  obtain ⟨k, hk, hP⟩ := mem_select.mp hp
  rcases mem_pair.mp (mem_of_mem_place hk) with rfl | rfl
  · rw [h true] at hP
    cases hP
  · rw [h false] at hP
    cases hP

private theorem not_mem_newObjects (h : ∀ d, k ≠ .table d) : k ∉ newObjects := by
  intro hk
  rcases mem_pair.mp hk with rfl | rfl
  · exact h true rfl
  · exact h false rfl

variable (ids : Identities)

private theorem consistent_new : Consistent (newHeader ids) Links.none newObjects := by
  have hend : arenaEnd newObjects = 22016 := by decide
  have hha : ∀ d b, select (inBucket d b) newObjects = [] :=
    fun d b => select_newObjects (fun _ => rfl)
  constructor
  · exact ⟨[], rfl, fun _ => not_mem_nil⟩
  · refine ⟨rfl, ⟨rfl, rfl, rfl, rfl⟩, ⟨.table false, ?_, ?_⟩, rfl, rfl, rfl, rfl, rfl⟩
    · exact mem_cons_of_mem _ mem_cons_self
    · show 16672 + (Kind.table false).room = arenaEnd newObjects
      decide
  · rw [hend]
    decide
  · constructor <;> intros <;> exact (by decide : 0 < 2 ^ 64)
  · constructor
    · intro d b _
      rw [hha]
      rfl
    · intro d b _
      rw [hha]
      rfl
    · intro d
      cases d <;> exact nodup_nil
    · intros
      rfl
  · constructor
    · intro p u hmem
      exact absurd (mem_of_mem_place hmem) (not_mem_newObjects nofun)
    · intro pay hmem
      exact absurd hmem (not_mem_newObjects nofun)
    · intros
      rfl
  · constructor
    · intro p pay hmem
      exact absurd (mem_of_mem_place hmem) (not_mem_newObjects nofun)
    · intro p pay hmem
      exact absurd (mem_of_mem_place hmem) (not_mem_newObjects nofun)
    · intro p pay hmem
      exact absurd (mem_of_mem_place hmem) (not_mem_newObjects nofun)
    · intro o a hmem
      exact absurd hmem (not_mem_newObjects nofun)
    · intro p _
      exact ⟨rfl, rfl, rfl, rfl⟩
  · exact ⟨by rw [select_newObjects (fun _ => rfl)]; rfl,
      by rw [select_newObjects (fun _ => rfl)]; rfl⟩

private theorem fits_first : (firstHeader ids).Fits := by
  constructor
  · simp only [JournalFileHeader.words, firstHeader]
    decide
  · simp only [JournalFileHeader.halves, firstHeader]
    decide
  · rfl
  · rfl
  · exact ids.file.property
  · exact ids.machine.property
  · exact ids.boot.property
  · exact ids.file.property

private theorem fits_new : (newHeader ids).Fits :=
  { fits_first ids with
    words := by
      simp only [JournalFileHeader.words, newHeader, firstHeader]
      decide }

private theorem headerOf_new : HeaderOf ids.boot (newHeader ids) newObjects [] where
  signature := rfl
  compatibleFlags := rfl
  incompatibleFlags := rfl
  nEntries := rfl
  headSeqnum := rfl
  headRealtime := rfl
  tailSeqnum := rfl
  tailRealtime := rfl
  tailMonotonic := rfl
  tailBoot := rfl
  tailOffset := by
    rw [select_newObjects (fun _ => rfl)]
    rfl
  tailArray := rfl

private theorem records_new : Records Links.none newObjects [] where
  entries := List.Forall₂.nil
  lists := fun _ _ hmem => absurd (mem_of_mem_place hmem) (not_mem_newObjects nofun)
  all := by
    rw [select_newObjects (fun _ => rfl)]
    rfl
  stored := by
    intro d pay
    refine iff_of_false ?_ ?_
    · cases d <;> exact not_mem_nil
    · rintro ⟨l, hl, -⟩
      exact not_mem_nil hl

private theorem holds_blank (hsz : p + n ≤ f.size)
    (hbl : ∀ i, p ≤ i → i < p + n → f.byte i = 0) : f.Holds p (List.replicate n 0) := by
  refine ⟨by rw [length_replicate]; exact hsz, ?_⟩
  intro i hi
  rw [length_replicate] at hi
  rw [hbl (p + i) (by omega) (by omega), getElem?_replicate, if_pos hi]

private theorem stored_table (hsz : p + (Kind.table d).size ≤ f.size)
    (h : f.Holds p ((tableType d).header (Kind.table d).size).encode)
    (hbl : ∀ i, p + 16 ≤ i → i < p + (Kind.table d).size → f.byte i = 0) :
    Stored f Links.none p (.table d) := by
  refine ⟨h, ?_⟩
  intro b hb
  simp only [Kind.size] at hsz hbl
  have hbck : (Links.none.bucket d b).encode = List.replicate 16 0 := by
    show (⟨0, 0⟩ : HashItem).encode = List.replicate 16 0
    decide
  rw [hbck]
  apply holds_blank (by omega)
  intro i hi hlt
  exact hbl i (by omega) (by omega)

private theorem ensures_createFile : (createFile ids).Ensures sup File.empty (fun _ => False)
      (fun _ f => Ready ids.boot f [] stateOnline 22016) := by
  have hln := (fits_first ids).length_encode
  have hln' := (fits_new ids).length_encode
  -- the first header stays a variable, so that the program is not evaluated
  obtain ⟨h₀, hfr⟩ : ∃ h₀, h₀ = firstHeader ids := ⟨_, rfl⟩
  have htl₀ : h₀.tailObjectOffset = 0 := by
    rw [hfr]
    rfl
  have hsz₀ : h₀.headerSize = 272 := by
    rw [hfr]
    rfl
  unfold createFile
  dsimp only
  rw [← hfr] at hln ⊢
  apply ensures_bind
  apply ensures_allocateRange (by decide) (by decide)
  intro f₁ _ _ h₁ _
  have hsz₁ := (h₁ (Nat.le_refl 0)).1
  apply ensures_bind
  apply ensures_writeAt
  have hend₁ : (f₁.write 0 h₀.encode).size = 272 := by
    rw [File.size_write_of_le (Nat.le_of_eq (by rw [hln, hsz₁])), hsz₁]
    rfl
  apply ensures_bind
  apply ensures_appendZeroObject_at (p := 272) _ (.table true) (by decide) (by decide)
  · intro f₂ ha₂ hr₂ hh₂ hb₂ _
    obtain ⟨h₂, hz₂⟩ := hb₂ (Nat.le_of_eq hend₁)
    have hrep₂ : Represents f₂ Links.none [.table true] := by
      refine ⟨hr₂, ?_⟩
      intro p k hmem
      obtain ⟨rfl, rfl⟩ := Prod.mk.inj (mem_singleton.mp hmem)
      exact stored_table (by rw [h₂]; decide) hh₂ (fun i hi _ => hz₂ i hi)
    have hbn₂ : arenaEnd [.table true] < 2 ^ 63 := by decide
    have hend₂ : 272 + (Kind.table true).room = arenaEnd [.table true] := by decide
    apply ensures_bind
    apply ensures_appendZeroObject_at (p := 16672)
      (ensures_nextOffset ⟨.table true, mem_cons_self, hend₂⟩ hbn₂ hrep₂ ·)
      (.table false) (by decide) (by decide)
    intro f₃ h₃ hr₃ hh₃ hb₃ _
    obtain ⟨hs₃, hz₃⟩ := hb₃ (Nat.le_of_eq h₂)
    have hrep₃ : Represents f₃ Links.none newObjects := by
      apply hrep₂.concat h₃ (fun p _ => Links.SameAt.refl _ p) hr₃
      exact stored_table (by rw [hs₃]; decide) hh₃ (fun i hi _ => hz₃ i hi)
    apply ensures_bind
    apply ensures_writeAt
    rw [hfr]
    refine ⟨newHeader ids, Links.none, newObjects, ⟨?_, fits_new ids, headerOf_new ids, ?_,
      consistent_new ids, records_new⟩, rfl, by decide⟩
    · exact File.holds_write f₃ 0 (ne_nil_of_length hln' (by decide))
    · exact hrep₃.write_header hln'
  · intro Q hQ
    rw [nextOffset, if_pos htl₀, hsz₀]
    exact hQ

end

section

variable {supported sup : Bool} {boot : Id128} {f f' : File} {log : List Logged} {input : Input}
  {inputs : List Input}

def appendStep (supported : Bool) (f : File) (input : Input) : Option File :=
  match (rustdJournalFileAppend input).exec supported f with
  | (.ok _, f') => some f'
  | (.error _, _) => none

/-- The log after the inputs. -/
def logAll (boot : Id128) (log : List Logged) (inputs : List Input) : List Logged :=
  run (fun log input => log ++ [logged boot log input]) log inputs

private theorem wellFormed_appendStep (hwf : WellFormed boot f log)
    (hds : (input.fields.map Field.key).Nodup) (hsp : appendStep sup f input = some f') :
    WellFormed boot f' (log ++ [logged boot log input]) := by
  obtain ⟨h, L, ks, hwf⟩ := hwf
  have hap : (rustdJournalFileAppend input).Ensures sup f _ _ :=
    ensures_rustdJournalFileAppend hwf hds
  unfold appendStep at hsp
  rcases hexc : (rustdJournalFileAppend input).exec sup f with ⟨e | a, f''⟩
  · rw [hexc] at hsp
    cases hsp
  rw [hexc] at hsp
  obtain rfl : f'' = f' := Option.some.inj hsp
  obtain ⟨h', L', ks', hwf', -, -⟩ := hap.ok hexc
  exact ⟨h', L', ks', hwf'⟩

private theorem wellFormed_run (hwf : WellFormed boot f log)
    (hds : ∀ input ∈ inputs, (input.fields.map Field.key).Nodup)
    (hrun : runPartial (appendStep sup) f inputs = some f') :
    WellFormed boot f' (logAll boot log inputs) := by
  induction inputs generalizing f log with
  | nil =>
    cases hrun
    exact hwf
  | cons input inputs ih =>
    obtain ⟨f₁, hsp, hrest⟩ := Option.bind_eq_some_iff.mp hrun
    exact ih (wellFormed_appendStep hwf (hds input mem_cons_self) hsp)
      (fun i' hmem => hds i' (mem_cons_of_mem input hmem)) hrest

private theorem appendStep_succeeds (hrd : Ready boot f log stateOnline n)
    (hvl : ∀ fi ∈ input.fields, journalFieldValid fi.key = true)
    (hds : (input.fields.map Field.key).Nodup) (hrm : n + inputRoom input ≤ uint32Max) :
    ∃ f', appendStep sup f input = some f' ∧
      Ready boot f' (log ++ [logged boot log input]) stateOnline (n + inputRoom input) := by
  obtain ⟨h, L, ks, hwf, hst, hend⟩ := hrd
  have hap : (rustdJournalFileAppend input).Ensures sup f _ _ :=
    ensures_rustdJournalFileAppend hwf hds
  have hnn : ∀ e, ¬AppendError h ks input e := by
    rintro e (⟨-, ho⟩ | ⟨-, hla⟩ | ⟨-, fi, hmem, hi⟩)
    · exact ho hst
    · omega
    · rw [hvl fi hmem] at hi
      cases hi
  obtain ⟨_, f', hexc, h', L', ks', hwf', hst', hend'⟩ := hap.exists_ok hnn
  refine ⟨f', ?_, h', L', ks', hwf', hst'.trans hst, by omega⟩
  rw [appendStep, hexc]

theorem runPartial_succeeds (hrd : Ready boot f log stateOnline n)
    (hvl : ∀ input ∈ inputs, ∀ fi ∈ input.fields, journalFieldValid fi.key = true)
    (hds : ∀ input ∈ inputs, (input.fields.map Field.key).Nodup)
    (hrm : n + (inputs.map inputRoom).sum ≤ uint32Max) :
    ∃ f', runPartial (appendStep sup) f inputs = some f' := by
  induction inputs generalizing f log n with
  | nil => exact ⟨f, rfl⟩
  | cons input inputs ih =>
    rw [map_cons, sum_cons] at hrm
    obtain ⟨f₁, hsp, h₁⟩ : ∃ f₁, appendStep sup f input = some f₁ ∧ _ :=
      appendStep_succeeds hrd (hvl input mem_cons_self) (hds input mem_cons_self) (by omega)
    obtain ⟨f', hrest⟩ := ih h₁ (fun i hi => hvl i (mem_cons_of_mem input hi))
      (fun i hi => hds i (mem_cons_of_mem input hi)) (by omega)
    exact ⟨f', by rw [runPartial, hsp]; exact hrest⟩

end

section

variable {boot : Id128} {log : List Logged} {inputs : List Input}

def Increasing (log : List Logged) : Prop := (log.map Logged.seqnum).Pairwise (· < ·)

private theorem le_lastSeqnum (h : Increasing log) (hl : l ∈ log) : l.seqnum ≤ lastSeqnum log := by
  induction log using List.reverseRecOn with
  | nil => exact absurd hl not_mem_nil
  | append_singleton log la _ =>
    rw [Increasing, map_append, pairwise_append] at h
    rw [lastSeqnum, last_concat]
    rcases mem_append.mp hl with hl | hl
    · exact Nat.le_of_lt (h.2.2 _ (List.mem_map_of_mem hl) _ (mem_singleton_self _))
    · exact Nat.le_of_eq (congrArg Logged.seqnum (mem_singleton.mp hl))

private theorem lt_assignSeqnum {p seqnum : Nat} (h : p < 2 ^ 64 - 1) :
    p < assignSeqnum p seqnum := by
  unfold assignSeqnum
  split
  · rw [Nat.mod_eq_of_lt (by omega)]
    omega
  · omega

private theorem increasing_concat (h : Increasing log) (hls : lastSeqnum log < 2 ^ 64 - 1)
    (input : Input) : Increasing (log ++ [logged boot log input]) := by
  rw [Increasing, map_append, pairwise_append]
  refine ⟨h, pairwise_singleton _ _, ?_⟩
  intro n hn m hm
  obtain ⟨l, hl, rfl⟩ := List.mem_map.mp hn
  obtain rfl := mem_singleton.mp hm
  exact Nat.lt_of_le_of_lt (le_lastSeqnum h hl) (lt_assignSeqnum hls)

private theorem prefix_logAll (boot : Id128) (log : List Logged) (inputs : List Input) :
    log <+: logAll boot log inputs := by
  induction inputs generalizing log with
  | nil => exact prefix_refl log
  | cons input inputs ih => exact (prefix_append log _).trans (ih _)

private theorem lastSeqnum_mem (h : log ≠ []) : ∃ l ∈ log, l.seqnum = lastSeqnum log := by
  refine ⟨log.getLast h, getLast_mem h, ?_⟩
  rw [lastSeqnum, getLast?_eq_getLast_of_ne_nil h]
  rfl

private theorem increasing_logAll (h : Increasing log)
    (hbe : ∀ l ∈ logAll boot log inputs, l.seqnum < 2 ^ 64 - 1) :
    Increasing (logAll boot log inputs) := by
  induction inputs generalizing log with
  | nil => exact h
  | cons input inputs ih =>
    apply ih (increasing_concat h _ input) hbe
    by_cases hnil : log = []
    · rw [hnil]
      decide
    obtain ⟨l, hl, hsq⟩ := lastSeqnum_mem hnil
    rw [← hsq]
    exact hbe l ((prefix_logAll boot log (input :: inputs)).subset hl)

end

section

variable {supported sup : Bool} {ids : Identities} {inputs : List Input} {f₀ f : File}

private theorem wellFormed_create (hc : (createFile ids).exec sup File.empty = (.ok (), f₀)) :
    WellFormed ids.boot f₀ [] := by
  have hcr : (createFile ids).Ensures sup File.empty _ _ := ensures_createFile ids
  obtain ⟨h, L, ks, hwf, -, -⟩ := hcr.ok hc
  exact ⟨h, L, ks, hwf⟩

/-- After any appends to a new file that succeed, of entries whose fields have different names, the
file is well-formed for what was appended, every bucket of a hash table leads through increasing
offsets, and the entries have increasing numbers as long as these stay below the last one. -/
theorem appends_wellFormed (hcreate : (createFile ids).exec supported File.empty = (.ok (), f₀))
    (hrun : runPartial (appendStep supported) f₀ inputs = some f)
    (hdistinct : ∀ input ∈ inputs, (input.fields.map Field.key).Nodup)
    (hbelow : ∀ l ∈ logAll ids.boot [] inputs, l.seqnum < 2 ^ 64 - 1) :
    ∃ h L ks, WellFormedWith ids.boot f (logAll ids.boot [] inputs) h L ks ∧
      (∀ data b, (select (inBucket data b) ks).Pairwise (· < ·)) ∧
      Increasing (logAll ids.boot [] inputs) := by
  obtain ⟨h, L, ks, hwf⟩ := wellFormed_run (wellFormed_create hcreate) hdistinct hrun
  exact ⟨h, L, ks, hwf, fun _ _ => pairwise_select _ _, increasing_logAll List.Pairwise.nil hbelow⟩

def someId : Id128 := ⟨List.replicate 16 7, rfl⟩

/-- Two entries that share one of their fields, `A=1`. -/
def someInputs : List Input :=
  [{ fields := [⟨[65], [49]⟩, ⟨[66], [50]⟩], realtimeUsec := 5, seqnum := 0, monotonicUsec := 1
     bootId := none },
   { fields := [⟨[65], [49]⟩, ⟨[66], []⟩], realtimeUsec := 4, seqnum := 9, monotonicUsec := 2
     bootId := some someId }]

theorem appends_wellFormed_two :
    ∃ f₀ f, (createFile ⟨someId, someId, someId⟩).exec true File.empty = (.ok (), f₀) ∧
      runPartial (appendStep true) f₀ someInputs = some f ∧
      ∃ h L ks, WellFormedWith someId f (logAll someId [] someInputs) h L ks ∧
        (∀ data b, (select (inBucket data b) ks).Pairwise (· < ·)) ∧
        Increasing (logAll someId [] someInputs) := by
  obtain ⟨⟨⟩, f₀, hcr, hrd⟩ := (ensures_createFile ⟨someId, someId, someId⟩).exists_ok (fun _ => id)
  obtain ⟨f, hrun⟩ : ∃ f, runPartial (appendStep true) f₀ someInputs = some f :=
    runPartial_succeeds hrd (by decide) (by decide) (by decide)
  exact ⟨f₀, f, hcr, hrun, appends_wellFormed hcr hrun (by decide) (by decide)⟩

end

section

variable {boot : Id128} {f f' : File} {log : List Logged} {h : JournalFileHeader} {L : Links}
  {ks : List Kind} {sup : Bool} {E : Errno → Prop}

/-- What a session does to an open or closed file. -/
inductive FileOp where
  | append (input : Input)
  | close
  | reopen (machine : Option Id128)

def FileOp.program : FileOp → Program Errno Unit
  | .append input => rustdJournalFileAppend input
  | .close => rustdJournalFileClose
  | .reopen machine => reopenFile machine

def FileOp.step (supported : Bool) (f : File) (op : FileOp) : Option File :=
  match op.program.exec supported f with
  | (.ok _, f') => some f'
  | (.error _, _) => none

def FileOp.input? : FileOp → Option Input
  | .append input => some input
  | .close | .reopen _ => none

private theorem holds_markState (hft : h.Fits) (hhl : f.Holds 0 h.encode) (state : UInt8) :
    (f.write 16 [state]).Holds 0 { h with state }.encode := by
  have henc (b : UInt8) : { h with state := b }.encode =
      (h.cells.take 3).flatten ++ ([b] ++ (h.cells.drop 4).flatten) := by
    simp [JournalFileHeader.encode, JournalFileHeader.cells]
  have hln : (h.cells.take 3).flatten.length = 16 := by
    simp [JournalFileHeader.cells, hft.signature]
  rw [← show { h with state := h.state } = h from rfl, henc] at hhl
  have hwr : (f.write (0 + _) [state]).Holds 0 _ := hhl.write_middle rfl
  rw [hln, Nat.zero_add, ← henc] at hwr
  exact hwr

/-- Whether it is in use makes no difference to what a file stores. -/
theorem WellFormedWith.markState (hwf : WellFormedWith boot f log h L ks) (state : UInt8) :
    WellFormedWith boot (f.write 16 [state]) log { h with state } L ks := by
  obtain ⟨hhl, hft, hof, hrep, hc, hrc⟩ := hwf
  refine ⟨holds_markState hft hhl state, ?_, ?_, ?_, ?_, hrc⟩
  · cases hft
    constructor <;> assumption
  · cases hof
    constructor <;> assumption
  · refine ⟨hrep.reaches.trans (File.le_size_write f _ _), fun p k hmem => ?_⟩
    have hge : 272 ≤ p := (bounds_of_mem_place hmem).1
    exact (hrep.stored p k hmem).write_apart (hrep.le_size hmem) (.inl (by simp; omega))
  · obtain ⟨htb, ⟨hsz, ⟨⟩, _, _, _, _, _, _⟩, hbn, hsm, hha, hfl, hen, ⟨⟩⟩ := hc
    refine ⟨htb, ⟨hsz, ?_, ?_, ?_, ?_, ?_, ?_, ?_⟩, hbn, hsm, hha, hfl, hen, ?_⟩ <;>
      first | assumption | constructor <;> assumption

theorem WellFormedWith.ensures_headerRead (hwf : WellFormedWith boot f log h L ks)
    (hQ : Q h f) : headerRead.Ensures sup f E Q :=
  JournalFile.ensures_headerRead hwf.holds hwf.fits hwf.header hwf.consistent.header.headerSize hQ

private theorem ensures_close (hwf : WellFormedWith boot f log h L ks) :
    rustdJournalFileClose.Ensures sup f E
      (fun _ f' => ∃ state, WellFormedWith boot f' log { h with state } L ks) := by
  unfold rustdJournalFileClose
  apply ensures_bind
  apply hwf.ensures_headerRead
  split
  · exact ⟨_, hwf.markState stateOffline⟩
  · exact ⟨_, hwf⟩

private theorem ensures_reopenFile (hwf : WellFormedWith boot f log h L ks)
    (hE : machine.any (·.val != h.machineId) = true → E .stale) :
    (reopenFile machine).Ensures sup f E
      (fun _ f' => WellFormedWith boot f' log { h with state := stateOnline } L ks) := by
  unfold reopenFile
  apply ensures_bind
  apply hwf.ensures_headerRead
  split
  · next hother => exact hE hother
  · exact hwf.markState stateOnline

private theorem FileOp.step_ensures {op : FileOp} {Q : File → Prop}
    (hen : op.program.Ensures sup f (fun _ => True) (fun _ => Q))
    (hsp : FileOp.step sup f op = some f') : Q f' := by
  unfold FileOp.step at hsp
  split at hsp
  · next hexc =>
    cases hsp
    exact hen.ok hexc
  · cases hsp

/-- Over all sessions in which a journal file is opened, appended to and closed, it stays
well-formed for what was appended in all of them. -/
theorem sessions_wellFormed (hwf : WellFormed boot f log) (ops : List FileOp)
    (hds : ∀ input ∈ ops.filterMap FileOp.input?, (input.fields.map Field.key).Nodup)
    (hrun : runPartial (FileOp.step sup) f ops = some f') :
    WellFormed boot f' (logAll boot log (ops.filterMap FileOp.input?)) := by
  induction ops generalizing f log with
  | nil =>
    cases hrun
    exact hwf
  | cons op ops ih =>
    obtain ⟨f₁, hsp, hrest⟩ := Option.bind_eq_some_iff.mp hrun
    cases op with
    | append input =>
      have hds : ∀ i ∈ input :: ops.filterMap FileOp.input?, (i.fields.map Field.key).Nodup := hds
      rw [forall_mem_cons] at hds
      exact ih (wellFormed_appendStep hwf hds.1 hsp) hds.2 hrest
    | close =>
      obtain ⟨h, L, ks, hwf⟩ := hwf
      obtain ⟨_, hwf⟩ := FileOp.step_ensures (ensures_close hwf) hsp
      exact ih ⟨_, L, ks, hwf⟩ hds hrest
    | reopen machine =>
      obtain ⟨h, L, ks, hwf⟩ := hwf
      have hwf := FileOp.step_ensures (ensures_reopenFile hwf fun _ => trivial) hsp
      exact ih ⟨_, L, ks, hwf⟩ hds hrest

/-- Two sessions, with an entry in each. -/
def twoSessions : List FileOp :=
  [.append someInputs[0], .close, .reopen none, .append someInputs[1]]

theorem sessions_wellFormed_two :
    ∃ f₀ f, (createFile ⟨someId, someId, someId⟩).exec true File.empty = (.ok (), f₀) ∧
      runPartial (FileOp.step true) f₀ twoSessions = some f ∧
      WellFormed someId f (logAll someId [] someInputs) := by
  obtain ⟨⟨⟩, f₀, hcr, hrd⟩ := (ensures_createFile ⟨someId, someId, someId⟩).exists_ok fun _ => id
  obtain ⟨f₁, hfirst, h₁, L, ks, hwf₁, -, hend⟩ :
      ∃ f₁, appendStep true f₀ someInputs[0] = some f₁ ∧ Ready _ f₁ _ _ _ :=
    appendStep_succeeds hrd (by decide) (by decide) (by decide)
  obtain ⟨_, f₂, hclose, state, hwf₂⟩ :
      ∃ a f, rustdJournalFileClose.exec true f₁ = (.ok a, f) ∧ _ :=
    (ensures_close hwf₁).exists_ok fun _ => id
  obtain ⟨_, f₃, hreopen, hwf₃⟩ : ∃ a f, (reopenFile none).exec true f₂ = (.ok a, f) ∧ _ :=
    (ensures_reopenFile hwf₂ nofun).exists_ok fun _ => id
  obtain ⟨f, hsecond, -⟩ : ∃ f, appendStep true f₃ someInputs[1] = some f ∧ _ :=
    appendStep_succeeds ⟨_, L, ks, hwf₃, rfl, hend⟩ (by decide) (by decide) (by decide)
  have hclosed : FileOp.step true f₁ .close = some f₂ := by
    rw [FileOp.step, FileOp.program, hclose]
  have hreopened : FileOp.step true f₂ (.reopen none) = some f₃ := by
    rw [FileOp.step, FileOp.program, hreopen]
  have hrun : runPartial (FileOp.step true) f₀ twoSessions = some f := by
    rw [twoSessions, runPartial,
      show FileOp.step true f₀ (.append someInputs[0]) = some f₁ from hfirst,
      Option.bind_some, runPartial, hclosed, Option.bind_some, runPartial, hreopened,
      Option.bind_some, runPartial,
      show FileOp.step true f₃ (.append someInputs[1]) = some f from hsecond]
    rfl
  exact ⟨f₀, f, hcr, hrun, sessions_wellFormed (wellFormed_create hcr) _ (by decide) hrun⟩

end

end Rustd.JournalFile
