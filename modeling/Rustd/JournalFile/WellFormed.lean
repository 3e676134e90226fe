import Rustd.JournalFile.References

/-!
# Well-formed journal files

A journal file stands for a log of entries. `WellFormed` says how: the header and the arena are
consistent, the data and the fields are those of the log, the entries of the arena are those of the
log in order, and every list of entries is complete.
-/

namespace Rustd.JournalFile

open Base Program List

section

structure Logged where
  seqnum : Nat
  realtimeUsec : UInt64
  monotonicUsec : UInt64
  bootId : Id128
  fields : List Field
  deriving DecidableEq

variable (boot : Id128) (log : List Logged)

def lastSeqnum : Nat := (log.getLast?.map Logged.seqnum).getD 0

def lastBoot : Id128 :=
  (log.getLast?.map Logged.bootId).getD boot

def logged (input : Input) : Logged :=
  { seqnum := assignSeqnum (lastSeqnum log) input.seqnum.toNat
    realtimeUsec := input.realtimeUsec
    monotonicUsec := input.monotonicUsec
    bootId := input.bootId.getD (lastBoot boot log)
    fields := input.fields }

def entriesOf (ks : List Kind) : List (EntryObject × List DataReference) :=
  ks.filterMap fun
    | .entry record items => some (record, items)
    | _ => none

def mentions (p : Nat) : Kind → Bool
  | .entry _ items => items.any (·.offset == p)
  | _ => false

structure Matches (ks : List Kind) (l : Logged) (entry : EntryObject × List DataReference) :
    Prop where
  seqnum : entry.1.seqnum = l.seqnum
  seqnum_lt : l.seqnum < 2 ^ 64
  realtime : entry.1.realtime = l.realtimeUsec.toNat
  monotonic : entry.1.monotonic = l.monotonicUsec.toNat
  bootId : entry.1.bootId = l.bootId
  items : List.Forall₂ (RefersTo ks) l.fields entry.2
  valid : ∀ field ∈ l.fields, journalFieldValid field.key = true
  distinct : (l.fields.map Field.key).Nodup

def Field.hashed (field : Field) (data : Bool) : List UInt8 :=
  if data then field.payload else field.key

structure Records (L : Links) (ks : List Kind) (log : List Logged) : Prop where
  entries : List.Forall₂ (Matches ks) log (entriesOf ks)
  lists : ∀ p payload, (p, .data payload) ∈ objects ks → listed L ks p = select (mentions p) ks
  all : arrayItems 0 ks = select isEntry ks
  stored : ∀ data payload, payload ∈ payloads data ks ↔
    ∃ l ∈ log, ∃ field ∈ l.fields, field.hashed data = payload

/-- The header is that of the log. -/
structure HeaderOf (boot : Id128) (h : JournalFileHeader) (ks : List Kind) (log : List Logged) :
    Prop where
  signature : h.signature = magic
  compatibleFlags : h.compatibleFlags = compatibleTailEntryBootId
  incompatibleFlags : h.incompatibleFlags = 0
  nEntries : h.nEntries = log.length
  headSeqnum : h.headEntrySeqnum = (log.head?.map Logged.seqnum).getD 0
  headRealtime : h.headEntryRealtime = (log.head?.map (·.realtimeUsec.toNat)).getD 0
  tailSeqnum : h.tailEntrySeqnum = lastSeqnum log
  tailRealtime : h.tailEntryRealtime = (log.getLast?.map (·.realtimeUsec.toNat)).getD 0
  tailMonotonic : h.tailEntryMonotonic = (log.getLast?.map (·.monotonicUsec.toNat)).getD 0
  tailBoot : h.tailEntryBootId = (lastBoot boot log).val
  tailOffset : h.tailEntryOffset = (select isEntry ks).getLastD 0
  tailArray : h.tailEntryArrayNEntries = if log = [] then 0 else 1

/-- The header, the links and the objects say what the log says. -/
structure WellFormedWith (boot : Id128) (f : File) (log : List Logged) (h : JournalFileHeader)
    (L : Links) (ks : List Kind) : Prop where
  holds : f.Holds 0 h.encode
  fits : h.Fits
  header : HeaderOf boot h ks log
  represents : Represents f L ks
  consistent : Consistent h L ks
  records : Records L ks log

/-- A file that holds a log. -/
def WellFormed (f : File) (log : List Logged) : Prop :=
  ∃ h L ks, WellFormedWith boot f log h L ks

end

section

variable {L L' : Links} {ks new : List Kind} {log : List Logged} {l : Logged} {p : Nat}
  {P : Kind → Bool} {k : Kind} {α β : Type} {R : α → β → Prop} {xs : List α} {ys : List β}
  {entry : EntryObject × List DataReference} (data : Bool)

private theorem select_append_of_neg (h : ∀ k ∈ new, P k = false) :
    select P (ks ++ new) = select P ks := by
  have hnil : (place (stop journalHeaderSize ks) new).filter (P ·.2) = [] := by
    rw [filter_eq_nil_iff]
    rintro ⟨q, k⟩ hmem
    rw [h k (mem_of_mem_place hmem)]
    exact Bool.false_ne_true
  rw [select, objects, place_append, filter_append, hnil, append_nil]
  rfl

private theorem arrayItems_append_of_neg (h : ∀ k ∈ new, arrayOf o k = false) :
    arrayItems o (ks ++ new) = arrayItems o ks := by
  have hnil : arrayItems o new = [] := by
    apply filterMap_eq_nil_iff.mpr
    intro k hk
    have hnot := h k hk
    cases k with
    | array o' a => exact if_neg (beq_eq_false_iff_ne.mp hnot)
    | _ => rfl
  rw [arrayItems, filterMap_append]
  show arrayItems o ks ++ arrayItems o new = arrayItems o ks
  rw [hnil, append_nil]

private theorem entriesOf_append_of_neg (h : ∀ k ∈ new, isEntry k = false) :
    entriesOf (ks ++ new) = entriesOf ks := by
  have hnil : entriesOf new = [] := by
    apply filterMap_eq_nil_iff.mpr
    intro k hk
    have hnot := h k hk
    cases k with
    | entry _ _ => cases hnot
    | _ => rfl
  rw [entriesOf, filterMap_append]
  show entriesOf ks ++ entriesOf new = entriesOf ks
  rw [hnil, append_nil]

private theorem payloads_append (ks new : List Kind) :
    payloads data (ks ++ new) = payloads data ks ++ payloads data new := filterMap_append

theorem mem_objects_append (h : (p, k) ∈ objects ks) : (p, k) ∈ objects (ks ++ new) := by
  rw [objects, place_append]
  exact mem_append_left _ h

private theorem mem_objects_append_cases (h : (p, k) ∈ objects (ks ++ new)) :
    (p, k) ∈ objects ks ∨ arenaEnd ks ≤ p ∧ k ∈ new := by
  rw [objects, place_append] at h
  rcases mem_append.mp h with hold | hnew
  · exact .inl hold
  · exact .inr ⟨(bounds_of_mem_place hnew).1, mem_of_mem_place hnew⟩

theorem forall₂_exists_left (h : List.Forall₂ R xs ys) (hy : y ∈ ys) : ∃ x ∈ xs, R x y := by
  induction h with
  | nil => exact absurd hy not_mem_nil
  | @cons a b xs ys hab hrest ih =>
    rcases mem_cons.mp hy with rfl | hy
    · exact ⟨a, mem_cons_self, hab⟩
    · obtain ⟨x, hx, hxy⟩ := ih hy
      exact ⟨x, mem_cons_of_mem a hx, hxy⟩

private theorem forall₂_exists_right (h : List.Forall₂ R xs ys) (hx : x ∈ xs) : ∃ y ∈ ys, R x y :=
  forall₂_exists_left h.flip hx

theorem Matches.append (h : Matches ks l entry) : Matches (ks ++ new) l entry :=
  { h with items := h.items.imp (fun _ _ href => ⟨mem_objects_append href.1, href.2⟩) }

theorem Matches.lt_arenaEnd (h : Matches ks l entry) {ref : DataReference} (href : ref ∈ entry.2) :
    ref.offset < arenaEnd ks := by
  obtain ⟨f, -, hr⟩ := forall₂_exists_left h.items href
  exact Rustd.JournalFile.lt_arenaEnd hr.1

private theorem Records.mentions_blank (hr : Records L ks log) (hp : arenaEnd ks ≤ p) :
    select (mentions p) ks = [] := by
  rw [eq_nil_iff_forall_not_mem]
  intro q hq
  obtain ⟨k, hk, hm⟩ := mem_select.mp hq
  cases k with
  | entry rc i =>
    have hmem : (rc, i) ∈ entriesOf ks := mem_filterMap.mpr ⟨_, mem_of_mem_place hk, rfl⟩
    obtain ⟨l, -, hma⟩ := forall₂_exists_left hr.entries hmem
    obtain ⟨ref, href, heq⟩ := List.any_eq_true.mp hm
    have hlt := hma.lt_arenaEnd href
    rw [beq_iff_eq.mp heq] at hlt
    exact Nat.not_le.mpr hlt hp
  | _ => cases hm

private theorem listed_blank (he : EntryLists L ks) (hp : arenaEnd ks ≤ p) :
    listed L ks p = [] := by
  rw [listed, if_pos (he.blank p hp).1]

private theorem mem_payloads_ofField {fi : List Field} {data : Bool} {payload : List UInt8}
    (hnew : ∀ k ∈ new, ∃ f ∈ fi, OfField f k) (hmem : payload ∈ payloads data new) :
    ∃ f ∈ fi, f.hashed data = payload := by
  obtain ⟨k, hk, hpd⟩ := mem_payloads.mp hmem
  obtain ⟨f, hfld, hof⟩ := hnew k hk
  refine ⟨f, hfld, ?_⟩
  cases data with
  | true =>
    rcases hof with rfl | rfl
    · cases hpd
    · exact Option.some.inj hpd
  | false =>
    rcases hof with rfl | rfl
    · exact Option.some.inj hpd
    · cases hpd

/-- The objects that an append adds: data and fields, the entry, the arrays of its data, and the
array of the list of all entries. -/
def appended (ks new : List Kind) (record : EntryObject) (refs : List DataReference)
    (arrays : List Kind) : List Kind :=
  ks ++ new ++ [.entry record refs] ++ arrays ++ [.array 0 (arenaEnd (ks ++ new))]

variable {arrays arr : List Kind} {record rc : EntryObject} {refs rf : List DataReference} {e : Nat}

theorem select_appended (hnew : ∀ k ∈ new, P k = false) (harr : ∀ k ∈ arr, isArray k = true)
    (har : ∀ k, isArray k = true → P k = false) :
    select P (appended ks new rc rf arr) =
      select P ks ++ if P (.entry rc rf) then [arenaEnd (ks ++ new)] else [] := by
  rw [appended, select_append_of_neg (forall_mem_singleton.mpr (har _ rfl)),
      select_append_of_neg (fun k hk => har k (harr k hk)), select_concat,
      select_append_of_neg hnew]

private theorem entriesOf_appended (hnew : ∀ k ∈ new, isEntry k = false)
    (harr : ∀ k ∈ arr, isEntry k = false) :
    entriesOf (appended ks new rc rf arr) = entriesOf ks ++ [(rc, rf)] := by
  rw [appended, entriesOf_append_of_neg (forall_mem_singleton.mpr rfl),
      entriesOf_append_of_neg harr, entriesOf, filterMap_append]
  show entriesOf (ks ++ new) ++ [(rc, rf)] = _
  rw [entriesOf_append_of_neg hnew]

private theorem payloads_appended (harr : ∀ k ∈ arr, k.hashed data = none) :
    payloads data (appended ks new rc rf arr) = payloads data ks ++ payloads data new := by
  have hnil : payloads data arr = [] := filterMap_eq_nil_iff.mpr harr
  rw [appended, payloads_concat, payloads_append, hnil, payloads_concat, payloads_append]
  simp only [Kind.hashed, Option.toList_none, append_nil]

private theorem arrayItems_appended (hnew : ∀ k ∈ new, isArray k = false)
    (harr : ∀ k ∈ arr, arrayOf 0 k = false) :
    arrayItems 0 (appended ks new rc rf arr) = arrayItems 0 ks ++ [arenaEnd (ks ++ new)] := by
  rw [appended, arrayItems_concat_array, if_pos rfl, arrayItems_append_of_neg harr,
    arrayItems_concat_of_not rfl,
    arrayItems_append_of_neg (fun k hk => arrayOf_eq_false (hnew k hk) 0)]

theorem Matches.mem_payloads (h : Matches ks l entry)
    (hfl : ∀ pay, .data pay ∈ ks → .field (fieldName pay) ∈ ks)
    (hfld : f ∈ l.fields) (data : Bool) : f.hashed data ∈ payloads data ks := by
  obtain ⟨ref, -, hr⟩ := forall₂_exists_right h.items hfld
  have hda := mem_of_mem_place hr.1
  have hname := hfl _ hda
  rw [fieldName_payload (h.valid f hfld)] at hname
  cases data with
  | true => exact JournalFile.mem_payloads.mpr ⟨_, hda, rfl⟩
  | false => exact JournalFile.mem_payloads.mpr ⟨_, hname, rfl⟩

theorem Records.concat_entry (hr : Records L ks log) (he : EntryLists L ks)
    (hnew : ∀ k ∈ new, ∃ f ∈ l.fields, OfField f k)
    (harr : ∀ k ∈ arr, ∃ d, d ≠ 0 ∧ k = .array d e) (hmt : Matches (ks ++ new) l (rc, rf))
    (hfl : ∀ pay, .data pay ∈ ks ++ new → .field (fieldName pay) ∈ ks ++ new)
    (hlst : ∀ p, p ≠ 0 → listed L' (appended ks new rc rf arr) p =
      listed L ks p ++ if p ∈ rf.map DataReference.offset then [arenaEnd (ks ++ new)] else []) :
    Records L' (appended ks new rc rf arr) (log ++ [l]) := by
  have hofField : ∀ k ∈ new, isEntry k = false ∧ isArray k = false := by
    intro k hk
    obtain ⟨f, -, rfl | rfl⟩ := hnew k hk <;> exact ⟨rfl, rfl⟩
  have har : ∀ k ∈ arr, isArray k = true ∧ isEntry k = false := by
    intro k hk
    obtain ⟨d, -, rfl⟩ := harr k hk
    exact ⟨rfl, rfl⟩
  have hprt : appended ks new rc rf arr = ks ++ (new ++ ([.entry rc rf] ++
      (arr ++ [.array 0 (arenaEnd (ks ++ new))]))) := by
    simp only [appended, append_assoc]
  constructor
  · rw [entriesOf_appended (fun k hk => (hofField k hk).1) (fun k hk => (har k hk).2)]
    apply rel_append
    · rw [hprt]
      exact hr.entries.imp (fun _ _ h => h.append)
    · rw [hprt, ← append_assoc]
      exact List.Forall₂.cons hmt.append List.Forall₂.nil
  · intro p pay hmem
    have hp : p ≠ 0 := Nat.ne_of_gt (Nat.lt_of_lt_of_le (by decide) (bounds_of_mem_place hmem).1)
    have hold : listed L ks p = select (mentions p) ks := by
      rw [hprt] at hmem
      rcases mem_objects_append_cases hmem with hmem | ⟨hle, -⟩
      · exact hr.lists p pay hmem
      · rw [listed_blank he hle, hr.mentions_blank hle]
    have hiff : mentions p (.entry rc rf) = true ↔ p ∈ rf.map DataReference.offset := by
      simp [mentions]
    rw [hlst p hp, hold, select_appended _ (fun k hk => (har k hk).1)]
    · simp only [hiff]
    · intro k hk
      cases k <;> first | rfl | cases hk
    · intro k hk
      obtain ⟨f, -, rfl | rfl⟩ := hnew k hk <;> rfl
  · rw [arrayItems_appended (fun k hk => (hofField k hk).2), hr.all,
      select_appended (fun k hk => (hofField k hk).1) (fun k hk => (har k hk).1)]
    · rfl
    · intro k hk
      cases k <;> first | rfl | cases hk
    · intro k hk
      obtain ⟨d, hd, rfl⟩ := harr k hk
      exact arrayOf_other e hd
  · intro data pay
    have hpa : payloads data (appended ks new rc rf arr) =
        payloads data ks ++ payloads data new := by
      apply payloads_appended
      intro k hk
      obtain ⟨d, -, rfl⟩ := harr k hk
      rfl
    rw [hpa, mem_append]
    constructor
    · rintro (hmem | hmem)
      · obtain ⟨l', hl', hfld⟩ := (hr.stored data pay).mp hmem
        exact ⟨l', mem_append_left _ hl', hfld⟩
      · exact ⟨l, mem_append_right _ (mem_singleton_self l), mem_payloads_ofField hnew hmem⟩
    · rintro ⟨l', hl', f, hfld, rfl⟩
      rcases mem_append.mp hl' with hl' | hl'
      · exact .inl ((hr.stored data _).mpr ⟨l', hl', f, hfld, rfl⟩)
      rw [mem_singleton.mp hl'] at hfld
      rw [← mem_append, ← payloads_append]
      exact hmt.mem_payloads hfl hfld data

end

section

variable {h h' : JournalFileHeader} {L L' : Links} {ks ks' : List Kind} {log : List Logged}
  {l : Logged} {boot : Id128} {record rc : EntryObject} {e : Nat}

private theorem head_concat (g : Logged → Nat) (log : List Logged) (l : Logged) :
    ((log ++ [l]).head?.map g).getD 0 =
      if log.length = 0 then g l else (log.head?.map g).getD 0 := by
  cases log <;> rfl

theorem last_concat {α : Type} (g : Logged → α) (a : α) (log : List Logged) (l : Logged) :
    ((log ++ [l]).getLast?.map g).getD a = g l := by
  rw [getLast?_concat]
  rfl

theorem HeaderOf.addEntry (hh : HeaderOf boot h ks log) (hfx : h'.fixed = h.fixed)
    (har : h'.tailEntryArrayNEntries = 1) (hsq : rc.seqnum = l.seqnum)
    (hr : rc.realtime = l.realtimeUsec.toNat)
    (hm : rc.monotonic = l.monotonicUsec.toNat) (hbo : rc.bootId = l.bootId)
    (hslc : select isEntry ks' = select isEntry ks ++ [e]) :
    HeaderOf boot (h'.addEntry rc e) ks' (log ++ [l]) := by
  have hn : h'.nEntries = log.length := (congrArg JournalFileHeader.nEntries hfx).trans hh.nEntries
  have hhd : h'.headEntrySeqnum = _ :=
    (congrArg JournalFileHeader.headEntrySeqnum hfx).trans hh.headSeqnum
  have hhd' : h'.headEntryRealtime = _ :=
    (congrArg JournalFileHeader.headEntryRealtime hfx).trans hh.headRealtime
  constructor
  · exact (congrArg JournalFileHeader.signature hfx).trans hh.signature
  · exact (congrArg JournalFileHeader.compatibleFlags hfx).trans hh.compatibleFlags
  · exact (congrArg JournalFileHeader.incompatibleFlags hfx).trans hh.incompatibleFlags
  · show h'.nEntries + 1 = (log ++ [l]).length
    rw [hn, length_append, length_singleton]
  · show (if h'.nEntries = 0 then rc.seqnum else h'.headEntrySeqnum) = _
    rw [head_concat, hn, hsq, hhd]
  · show (if h'.nEntries = 0 then rc.realtime else h'.headEntryRealtime) = _
    rw [head_concat, hn, hr, hhd']
  · show rc.seqnum = lastSeqnum (log ++ [l])
    rw [lastSeqnum, last_concat, hsq]
  · show rc.realtime = _
    rw [last_concat, hr]
  · show rc.monotonic = _
    rw [last_concat, hm]
  · show rc.bootId.val = (lastBoot boot (log ++ [l])).val
    rw [lastBoot, last_concat, hbo]
  · show e = (select isEntry ks').getLastD 0
    rw [hslc, getLastD_concat]
  · show h'.tailEntryArrayNEntries = _
    rw [har, if_neg (append_ne_nil_of_right_ne_nil _ (cons_ne_nil l []))]

private theorem Consistent.header_lt (hc : Consistent h L ks) :
    h.arenaSize < 2 ^ 64 ∧ h.tailObjectOffset < 2 ^ 64 ∧ h.nObjects < 2 ^ 64 ∧
      h.entryArrayOffset < 2 ^ 64 ∧ h.nData < 2 ^ 64 ∧ h.nFields < 2 ^ 64 ∧
      h.nEntryArrays < 2 ^ 64 := by
  have hbn := hc.bound
  have hln : ks.length ≤ arenaEnd ks :=
    Nat.le_trans (Nat.le_add_left _ _) (length_add_le_stop journalHeaderSize ks)
  have har := hc.header.arenaSize
  have hob := hc.header.nObjects
  have hnData := hc.header.nData
  have hnFields := hc.header.nFields
  have harr := hc.header.nEntryArrays
  have hda : (payloads true ks).length ≤ ks.length := length_filterMap_le _ _
  have hfl : (payloads false ks).length ≤ ks.length := length_filterMap_le _ _
  have hcn : ks.countP isArray ≤ ks.length := countP_le_length
  have hhd : h.entryArrayOffset < arenaEnd ks := by
    rw [hc.all.linked.head_eq]
    cases hslc : select (arrayOf 0) ks with
    | nil => exact arenaEnd_pos ks
    | cons p ps =>
      have hmem : p ∈ select (arrayOf 0) ks := by
        rw [hslc]
        exact mem_cons_self
      exact lt_arenaEnd_of_mem_select hmem
  obtain ⟨k, hmem, -⟩ := hc.header.tail
  have htl := lt_arenaEnd hmem
  omega

theorem JournalFileHeader.Fits.grown (hft : h.Fits) (hfx : h'.fixed = h.fixed)
    (hc : Consistent h' L' ks') (htl : h'.tailEntryArrayOffset < 2 ^ 32)
    (hn : h'.tailEntryArrayNEntries < 2 ^ 32) : h'.Fits := by
  obtain ⟨har, ht, ho, he, hd, hf, harr⟩ := hc.header_lt
  have hwd := hft.words
  have hha := hft.halves
  simp only [JournalFileHeader.fixed, JournalFileHeader.mk.injEq] at hfx
  simp only [JournalFileHeader.words, JournalFileHeader.halves, forall_mem_cons] at hwd hha
  constructor
  · simp only [JournalFileHeader.words, forall_mem_cons, hfx]
    simp only [hwd, har, ht, ho, he, hd, hf, harr, true_and]
    simp
  · simp only [JournalFileHeader.halves, forall_mem_cons, hfx]
    exact ⟨hha.1, hha.2.1, htl, hn, by simp⟩
  · simp only [hfx, hft.signature]
  · simp only [hfx, hft.reserved]
  · simp only [hfx, hft.fileId]
  · simp only [hfx, hft.machineId]
  · simp only [hfx, hft.tailEntryBootId]
  · simp only [hfx, hft.seqnumId]

theorem JournalFileHeader.Fits.addEntry (hft : h.Fits) (hn : h.nEntries + 1 < 2 ^ 64)
    (hsq : rc.seqnum < 2 ^ 64) (hr : rc.realtime < 2 ^ 64)
    (hm : rc.monotonic < 2 ^ 64) (he : e < 2 ^ 64) : (h.addEntry rc e).Fits := by
  have hwd := hft.words
  simp only [JournalFileHeader.words, forall_mem_cons] at hwd
  have hhd : (if h.nEntries = 0 then rc.seqnum else h.headEntrySeqnum) < 2 ^ 64 := by
    split
    · exact hsq
    · exact hwd.2.2.2.2.2.2.2.2.2.2.1
  have hhd' : (if h.nEntries = 0 then rc.realtime else h.headEntryRealtime) < 2 ^ 64 := by
    split
    · exact hr
    · exact hwd.2.2.2.2.2.2.2.2.2.2.2.2.1
  constructor
  · simp only [JournalFileHeader.words, JournalFileHeader.addEntry, forall_mem_cons]
    simp only [hwd, hn, hsq, hr, hm, he, hhd, hhd', true_and]
    simp
  · exact hft.halves
  · exact hft.signature
  · exact hft.reserved
  · exact hft.fileId
  · exact hft.machineId
  · exact rc.bootId.property
  · exact hft.seqnumId

end

end Rustd.JournalFile
