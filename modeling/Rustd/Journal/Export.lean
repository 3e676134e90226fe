import Rustd.Journal.Receiver

/-!
# Export of journal entries

`print_export` of `src/bin/rustjournalctl_impl.rs` against the grammar of the export format.
-/

namespace Rustd.Journal

open Base List

section

/-- A field as it is exported: as text if the value is UTF-8. -/
def printField (field : List UInt8 × List UInt8) : List UInt8 :=
  if isUtf8 field.2 then field.1 ++ equals :: field.2 ++ [newline]
  else field.1 ++ newline :: littleEndian 8 field.2.length ++ field.2 ++ [newline]

/-- The fields that stand before those of the entry. -/
def exportHeader (entry : JournalEntry) : List (List UInt8 × List UInt8) :=
  [(ascii "__REALTIME_TIMESTAMP", ascii (toString entry.realtimeUsec)),
    (ascii "__SEQNUM", ascii (toString entry.seqnum))]

/-- The order is the one in which the map of the fields is walked. -/
def printExport (entry : JournalEntry) (order : List (List UInt8 × List UInt8)) : List UInt8 :=
  (exportHeader entry).flatMap (fun field => field.1 ++ equals :: field.2 ++ [newline]) ++
    order.flatMap printField ++ [newline]

end

section

/-- The first entry of an export by the grammar of the format, with what follows it. -/
def decodeExport (data : List UInt8) :
    Option (List (List UInt8 × List UInt8) × List UInt8) :=
  if h : newline ∈ data then
    let line := data.takeWhile (· != newline)
    let rest := (data.dropWhile (· != newline)).drop 1
    have hrest : rest.length < data.length := length_rest (ne_nil_of_mem h)
    if line = [] then some ([], rest)
    else if line.contains equals then
      let field := (line.takeWhile (· != equals), (line.dropWhile (· != equals)).drop 1)
      (decodeExport rest).map fun entry => (field :: entry.1, entry.2)
    else
      let len := ofLittleEndian (rest.take 8)
      if rest.length < 8 ∨ (rest.drop 8)[len]? ≠ some newline then none
      else (decodeExport ((rest.drop 8).drop (len + 1))).map fun entry =>
        ((line, (rest.drop 8).take len) :: entry.1, entry.2)
  else none
termination_by data.length
decreasing_by
  · exact hrest
  · simp only [rest, length_drop] at hrest ⊢
    omega

variable {key value rest : List UInt8}

private theorem decodeExport_blank (rest : List UInt8) :
    decodeExport (newline :: rest) = some ([], rest) := by
  rw [decodeExport, dif_pos mem_cons_self]
  rfl

private theorem decodeExport_text (hkey : equals ∉ key) (hli : newline ∉ key)
    (hva : newline ∉ value) (rest : List UInt8) :
    decodeExport (key ++ equals :: value ++ newline :: rest) =
      (decodeExport rest).map fun e => ((key, value) :: e.1, e.2) := by
  have hnn : newline ∉ key ++ equals :: value := by
    simp only [mem_append, mem_cons, not_or]
    exact ⟨hli, by decide, hva⟩
  rw [decodeExport, dif_pos (by simp)]
  simp only [takeWhile_separator hnn, dropWhile_separator hnn, takeWhile_separator hkey,
    dropWhile_separator hkey, drop_succ_cons, drop_zero]
  rw [if_neg (by simp), if_pos (by simp)]

private theorem decodeExport_binary (hne : key ≠ []) (hkey : equals ∉ key) (hli : newline ∉ key)
    (hva : value.length < 2 ^ 64) (rest : List UInt8) :
    decodeExport (key ++ newline :: (littleEndian 8 value.length ++ (value ++ newline :: rest))) =
      (decodeExport rest).map fun e => ((key, value) :: e.1, e.2) := by
  have hlen : ofLittleEndian (littleEndian 8 value.length) = value.length :=
    ofLittleEndian_littleEndian hva
  have hdr : (littleEndian 8 value.length ++ (value ++ newline :: rest)).drop 8 =
      value ++ newline :: rest := drop_left' (length_littleEndian 8 _)
  have htak : (littleEndian 8 value.length ++ (value ++ newline :: rest)).take 8 =
      littleEndian 8 value.length := take_left' (length_littleEndian 8 _)
  rw [decodeExport, dif_pos (by simp)]
  simp only [takeWhile_separator hli, dropWhile_separator hli, drop_succ_cons, drop_zero]
  rw [if_neg hne, if_neg (by simpa using hkey), hdr, htak, hlen, if_neg (by simp)]
  rw [take_left, drop_append, drop_eq_nil_of_le (Nat.le_succ _)]
  simp

private theorem decodeExport_cut (hkey : equals ∉ key) (hli : newline ∉ key)
    (hva : newline ∈ value) (rest : List UInt8) :
    decodeExport (key ++ equals :: value ++ newline :: rest) ≠ some ((key, value) :: fs, r) := by
  rcases split_cases (x := newline) value with ⟨hnn, -, -⟩ | ⟨l, hnn, hsl, -⟩
  · exact absurd hva hnn
  generalize value.takeWhile (· != newline) = cut at hnn hsl
  subst hsl
  intro h
  have hda : key ++ equals :: (cut ++ newline :: l) ++ newline :: rest =
      key ++ equals :: cut ++ newline :: (l ++ newline :: rest) := by simp
  rw [hda, decodeExport_text hkey hli hnn, Option.map_eq_some_iff] at h
  obtain ⟨e, -, heq⟩ := h
  simp at heq

end

section

/-- Text can carry the value: it is not UTF-8, so that it is exported with its length, or it is a
single line. -/
def Exportable (value : List UInt8) : Prop := isUtf8 value = true → newline ∉ value

private theorem decodeExport_fields (fs : List (List UInt8 × List UInt8))
    (hna : ∀ f ∈ fs, validFieldName f.1 = true) (hl : ∀ f ∈ fs, f.2.length < 2 ^ 64) :
    decodeExport (fs.flatMap printField ++ [newline]) = some (fs, []) ↔
      ∀ f ∈ fs, Exportable f.2 := by
  induction fs with
  | nil => simp [decodeExport_blank]
  | cons f fs ih =>
    obtain ⟨hname, hna⟩ := forall_mem_cons.mp hna
    obtain ⟨hln, hl⟩ := forall_mem_cons.mp hl
    obtain ⟨hne, hbt⟩ := of_validFieldName hname
    have hkey : equals ∉ f.1 := fun h => (isNameByte_bounds (hbt _ h)).2.1 rfl
    have hli : newline ∉ f.1 := fun h => (isNameByte_bounds (hbt _ h)).2.2 rfl
    have hrest : ∀ rest : Option (List (List UInt8 × List UInt8) × List UInt8),
        (rest.map fun e => ((f.1, f.2) :: e.1, e.2)) =
          some (f :: fs, []) ↔ rest = some (fs, []) := by
      rintro (_ | ⟨e, r⟩)
      · simp
      · simp
    rw [flatMap_cons, forall_mem_cons, ← ih hna hl, append_assoc, printField]
    split
    · next hutf8 =>
      rw [append_assoc, singleton_append]
      by_cases hva : newline ∈ f.2
      · exact iff_of_false (decodeExport_cut hkey hli hva _) fun h => h.1 hutf8 hva
      · rw [decodeExport_text hkey hli hva, hrest]
        exact (and_iff_right fun _ => hva).symm
    · next hutf8 =>
      simp only [append_assoc, cons_append, nil_append]
      rw [decodeExport_binary hne hkey hli hln, hrest]
      exact (and_iff_right fun h => absurd h hutf8).symm

private theorem newline_notMem_number (n : Nat) : newline ∉ ascii (toString n) := by
  intro h
  obtain ⟨c, hc, hn⟩ := List.mem_map.mp h
  have hdg : c.isDigit = true := by
    rw [Nat.toString_eq_repr, Nat.toList_repr] at hc
    exact Nat.isDigit_of_mem_toDigits (by decide) (by decide) hc
  have hlow : 48 ≤ c.toNat := (Char.isDigit_iff_toNat.mp hdg).1
  have hhg : c.toNat ≤ 57 := (Char.isDigit_iff_toNat.mp hdg).2
  have hva := congrArg UInt8.toNat hn
  simp only [Nat.toUInt8, UInt8.toNat_ofNat', newline, UInt8.reduceToNat] at hva
  omega

/-- Decoding an export gives the entry back exactly if no value that is UTF-8 has a newline. -/
theorem export_decoded_iff (entry : JournalEntry) (order : List (List UInt8 × List UInt8))
    (horder : order.Perm entry.fields.toList)
    (hnames : ∀ field ∈ entry.fields.toList, validFieldName field.1 = true)
    (hlengths : ∀ field ∈ entry.fields.toList, field.2.length < 2 ^ 64) :
    decodeExport (printExport entry order) = some (exportHeader entry ++ order, []) ↔
      ∀ field ∈ entry.fields.toList, Exportable field.2 := by
  have hmem : ∀ {P : List UInt8 × List UInt8 → Prop}, (∀ field ∈ entry.fields.toList, P field) ↔
      ∀ field ∈ order, P field := fun {P} => by simp only [horder.mem_iff]
  have hpr : printExport entry order =
      ascii "__REALTIME_TIMESTAMP" ++ equals :: ascii (toString entry.realtimeUsec) ++ newline ::
        (ascii "__SEQNUM" ++ equals :: ascii (toString entry.seqnum) ++ newline ::
          (order.flatMap printField ++ [newline])) := by
    simp [printExport, exportHeader]
  rw [hmem, ← decodeExport_fields order (hmem.mp hnames) (hmem.mp hlengths), hpr,
    decodeExport_text (by decide) (by decide) (newline_notMem_number _),
    decodeExport_text (by decide) (by decide) (newline_notMem_number _)]
  rcases decodeExport (order.flatMap printField ++ [newline]) with _ | ⟨fields, r⟩
  · simp
  · simp [exportHeader]

/-- A message, and a field that is not UTF-8 and has a newline. -/
def twoFields : Fields :=
  ((∅ : Fields).insert (ascii "MESSAGE") (ascii "a")).insert (ascii "DUMP") [255, 10]

theorem export_decoded_message :
    decodeExport (printExport ⟨0, 1, twoFields⟩
      [(ascii "MESSAGE", ascii "a"), (ascii "DUMP", [255, 10])]) =
        some (exportHeader ⟨0, 1, ∅⟩ ++
          [(ascii "MESSAGE", ascii "a"), (ascii "DUMP", [255, 10])], []) := by
  have hfields : twoFields.toList = [(ascii "DUMP", [255, 10]), (ascii "MESSAGE", ascii "a")] := by
    decide +kernel
  refine (export_decoded_iff ⟨0, 1, twoFields⟩
    [(ascii "MESSAGE", ascii "a"), (ascii "DUMP", [255, 10])] ?_ ?_ ?_).mpr ?_
  · rw [hfields]
    exact .swap _ _ []
  all_goals
    simp only [hfields, forall_mem_cons, not_mem_nil, false_imp_iff, implies_true, and_true,
      Exportable]
    decide +kernel

/-- A message of two lines comes out as two fields. -/
theorem export_forged :
    decodeExport (printExport ⟨0, 1, (∅ : Fields).insert (ascii "MESSAGE") (ascii "a\nB=c")⟩
        [(ascii "MESSAGE", ascii "a\nB=c")]) =
      some (exportHeader ⟨0, 1, ∅⟩ ++
        [(ascii "MESSAGE", ascii "a"), (ascii "B", ascii "c")], []) := by
  decide +kernel

end

end Rustd.Journal
