import Rustd.Journal.Datagram

/-!
# What arrives of a submission

The receiver recovers the fields of a submission exactly when no value holds a newline and the
datagram fits into the receive buffer. One direction follows the lines of the datagram. For the
other the bytes are counted: the fields that are found take up no more bytes than there are, so
when all fields of the submission are among them, there is nothing but their lines.
-/

namespace Rustd.Journal

open Base List Std

variable (field : List UInt8 × List UInt8) (fields fs : List (List UInt8 × List UInt8))

def fieldSize : Nat := field.1.length + field.2.length + 2

def totalSize : Nat := (fields.map fieldSize).sum

def render : List UInt8 := field.1 ++ equals :: field.2

def payload : List UInt8 :=
  fields.flatMap (render · ++ [newline])

def insertFields (fields : Fields) (new : List (List UInt8 × List UInt8)) : Fields :=
  new.foldl (fun fields field => fields.insert field.1 field.2) fields

variable (fields fs : List (List UInt8 × List UInt8))

@[simp] theorem totalSize_cons (field : List UInt8 × List UInt8)
    (fields : List (List UInt8 × List UInt8)) :
    totalSize (field :: fields) = fieldSize field + totalSize fields := by
  simp [totalSize]

private theorem length_payload : (payload fields).length = totalSize fields := by
  induction fields with
  | nil => rfl
  | cons field fields ih =>
    rw [payload, flatMap_cons, length_append, ← payload, ih, totalSize_cons]
    simp only [render, fieldSize, length_append, length_cons, length_nil]
    omega

private theorem payload_concat (l : List UInt8 × List UInt8) :
    payload (fs ++ [l]) = (payload fs ++ render l) ++ [newline] := by
  simp [payload]

private theorem payload_closed {fs : List (List UInt8 × List UInt8)} (h : fs ≠ []) :
    payload fs = (payload fs).dropLast ++ [newline] := by
  obtain ⟨i, l, rfl⟩ : ∃ i l, fs = i ++ [l] :=
    ⟨fs.dropLast, fs.getLast h, (dropLast_append_getLast h).symm⟩
  rw [payload_concat, dropLast_concat]

private theorem length_le_totalSize : fields.length ≤ totalSize fields := by
  induction fields with
  | nil => exact Nat.zero_le _
  | cons field fields ih =>
    rw [totalSize_cons, length_cons, fieldSize]
    omega

private theorem totalSize_of_sublist {fields fields' : List (List UInt8 × List UInt8)}
    (h : fields.Sublist fields') :
    totalSize fields + 2 * fields'.length ≤ totalSize fields' + 2 * fields.length := by
  induction h with
  | slnil => exact Nat.le_refl _
  | cons field _ ih =>
    rw [totalSize_cons, length_cons, fieldSize]
    omega
  | cons_cons field _ ih =>
    simp only [totalSize_cons, length_cons]
    omega

private theorem totalSize_of_perm {fs fields' : List (List UInt8 × List UInt8)}
    (h : fs.Perm fields') : totalSize fs = totalSize fields' :=
  (h.map fieldSize).sum_nat

section

variable {fields fs : List (List UInt8 × List UInt8)} {system : SendSystem}
  {datagram : List UInt8}

private theorem appendFields_eq_ok (h : appendFields system (fields.map render) i = .ok datagram) :
    datagram = i ++ payload fields := by
  induction fields generalizing i with
  | nil =>
    simp only [map_nil, appendFields, Except.ok.injEq] at h
    rw [← h, payload, flatMap_nil, append_nil]
  | cons field fields ih =>
    rw [map_cons, appendFields] at h
    split at h
    · cases h
    split at h
    · rw [ih h, payload, payload, flatMap_cons]
      simp only [append_assoc]
    · cases h

private theorem rustdJournalSendv_eq_ok
    (h : rustdJournalSendv system (fields.map render) = .ok datagram) :
    fields ≠ [] ∧ datagram = payload fields := by
  unfold rustdJournalSendv at h
  split at h
  · cases h
  rename_i hne
  refine ⟨fun hnil => hne (by rw [hnil, map_nil]), ?_⟩
  split at h
  · cases h
  rename_i built hbuilt
  split at h
  · cases h
  · cases h
  · obtain rfl := Except.ok.inj h
    rw [appendFields_eq_ok hbuilt, nil_append]

end

section

variable {key : List UInt8}

theorem of_validFieldName (h : validFieldName key = true) :
    key ≠ [] ∧ ∀ b ∈ key, isNameByte b = true := by
  unfold validFieldName at h
  split at h
  · cases h
  · simp only [Bool.and_eq_true, List.all_eq_true] at h
    exact ⟨cons_ne_nil _ _, h.2⟩

theorem isNameByte_bounds (h : isNameByte b = true) : b.toNat < 97 ∧ b ≠ equals ∧ b ≠ newline := by
  simp only [isNameByte, Bool.or_eq_true, Bool.and_eq_true, decide_eq_true_eq, beq_iff_eq,
    UInt8.le_iff_toNat_le] at h
  have h65 : (65 : UInt8).toNat = 65 := rfl
  have h90 : (90 : UInt8).toNat = 90 := rfl
  have h48 : (48 : UInt8).toNat = 48 := rfl
  have h57 : (57 : UInt8).toNat = 57 := rfl
  rw [h65, h90, h48, h57] at h
  refine ⟨?_, ?_, ?_⟩
  · rcases h with (h | h) | rfl
    · omega
    · omega
    · decide
  · rintro rfl
    revert h
    decide
  rintro rfl
  revert h
  decide

private theorem asciiUppercase_name (h : ∀ b ∈ key, isNameByte b = true) :
    asciiUppercase key = key := by
  have hsa : ∀ b ∈ key, (if 97 ≤ b ∧ b ≤ 122 then b - 32 else b) = id b := by
    intro b hb
    have hlow := (isNameByte_bounds (h b hb)).1
    rw [if_neg, id]
    rintro ⟨hle, -⟩
    have h97 : (97 : UInt8).toNat = 97 := rfl
    rw [UInt8.le_iff_toNat_le, h97] at hle
    omega
  rw [asciiUppercase, map_congr_left hsa, List.map_id]

@[simp] theorem length_asciiUppercase (bs : List UInt8) :
    (asciiUppercase bs).length = bs.length := by
  rw [asciiUppercase, length_map]

private theorem isUtf8_of_ascii {bytes : List UInt8} (h : ∀ b ∈ bytes, b.toNat < 128) :
    isUtf8 bytes = true := by
  have hen : ∀ b : UInt8, b.toNat < 128 →
      String.utf8EncodeChar (Char.ofNat b.toNat) = [b] := by
    intro b hb
    have hval : (Char.ofNat b.toNat).val.toNat = b.toNat := by
      have hvl : Nat.isValidChar b.toNat := .inl (by omega)
      simp [Char.ofNat, hvl, Char.ofNatAux]
    simp only [String.utf8EncodeChar, hval]
    rw [if_pos (by omega), UInt8.ofNat_toNat]
  have hfl : (bytes.map (Char.ofNat ·.toNat)).flatMap String.utf8EncodeChar = bytes := by
    induction bytes with
    | nil => rfl
    | cons b bytes ih =>
      rw [map_cons, flatMap_cons, hen b (h b mem_cons_self),
        ih (fun b hb => h b (mem_cons_of_mem _ hb)), singleton_append]
  rw [isUtf8, ByteArray.validateUTF8_eq_true_iff]
  exact ⟨bytes.map (Char.ofNat ·.toNat), by rw [List.utf8Encode, hfl]⟩

end

section

def openLine (data : List UInt8) : Nat := if data = [] ∨ data.getLast? = some newline then 0 else 1

variable (data : List UInt8)

private theorem openLine_le_one : openLine data ≤ 1 := by
  unfold openLine
  split <;> omega

private theorem openLine_append (n rest : List UInt8) :
    openLine (n ++ newline :: rest) = openLine rest := by
  unfold openLine
  cases rest with
  | nil => simp
  | cons b rest =>
    have hls : (n ++ newline :: b :: rest).getLast? = (b :: rest).getLast? := by
      rw [getLast?_append_of_ne_nil _ (cons_ne_nil _ _), getLast?_cons_cons]
    rw [hls]
    simp

/-- The fields that are found in some bytes: they go one after the other into the entry and take
up no more than all bytes, and if they do take up all of them, every line is one of them. -/
structure Found (data : List UInt8) (fields fields' : Fields)
    (found : List (List UInt8 × List UInt8)) : Prop where
  inserted : fields' = insertFields fields found
  fits : totalSize found ≤ data.length + openLine data
  tight : totalSize found = data.length + openLine data →
    found.length = data.count newline + openLine data

variable {fields fs fields' : Fields} {found : List (List UInt8 × List UInt8)}

theorem Found.nothing (fs : Fields) : Found data fs fs [] := by
  refine ⟨rfl, Nat.zero_le _, ?_⟩
  intro h
  have hln : data.length = 0 := by
    simp only [totalSize, map_nil, sum_nil] at h
    omega
  obtain rfl := length_eq_zero_iff.mp hln
  rfl

theorem Found.skip {data l : List UInt8} (h : Found l fs fields' found)
    (hln : l.length + openLine l < data.length + openLine data) : Found data fs fields' found := by
  refine ⟨h.inserted, ?_, ?_⟩
  · have hft := h.fits
    omega
  intro hth
  have hft := h.fits
  omega

private theorem acceptField_cases (fs : Fields) (key value : List UInt8) :
    acceptField fs key value = fs ∨ acceptField fs key value = fs.insert key value := by
  unfold acceptField
  split
  · exact .inl rfl
  split
  · exact .inl rfl
  · exact .inr rfl

theorem Found.accepted {data l key value : List UInt8}
    (h : Found l (acceptField fs key value) fields' found)
    (hln : fieldSize (key, value) + l.length + openLine l ≤ data.length + openLine data)
    (hcn : fieldSize (key, value) + l.length + openLine l = data.length + openLine data →
      l.count newline + openLine l + 1 = data.count newline + openLine data) :
    ∃ found, Found data fs fields' found := by
  have hft := h.fits
  rcases acceptField_cases fs key value with hsa | hin
  · rw [hsa] at h
    refine ⟨found, h.skip ?_⟩
    rw [fieldSize] at hln
    omega
  rw [hin] at h
  refine ⟨(key, value) :: found, h.inserted, ?_, ?_⟩
  · rw [totalSize_cons]
    omega
  intro hth
  rw [totalSize_cons] at hth
  have hrest := h.tight (by omega)
  have hcn := hcn (by omega)
  rw [length_cons]
  omega

private theorem line_cases {data : List UInt8} (h : data ≠ []) :
    let line := data.takeWhile (· != newline)
    let rest := (data.dropWhile (· != newline)).drop 1
    newline ∉ line ∧ line.length + 1 + rest.length + openLine rest = data.length + openLine data ∧
      rest.count newline + openLine rest + 1 = data.count newline + openLine data := by
  intro line rest
  rcases split_cases (x := newline) data with ⟨hnn, htak, hdr⟩ | ⟨after, hnn, hsl, hdr⟩
  · have hrest : rest = [] := by
      simp only [rest, hdr, drop_nil]
    have hon : openLine data = 1 := by
      unfold openLine
      rw [if_neg]
      rintro (hnil | hls)
      · exact h hnil
      · exact hnn (mem_of_getLast? hls)
    have hcn : data.count newline = 0 := count_eq_zero.mpr hnn
    refine ⟨by rw [show line = data from htak]; exact hnn, ?_, ?_⟩
    · rw [hrest, show line = data from htak, hon]
      rfl
    · rw [hrest, hcn, hon]
      rfl
  · have hrest : rest = after := by
      simp only [rest, hdr, drop_succ_cons, drop_zero]
    have hcn : line.count newline = 0 := count_eq_zero.mpr hnn
    have hda : data = line ++ newline :: after := hsl
    refine ⟨hnn, ?_, ?_⟩
    · rw [hrest, hda, openLine_append]
      simp only [length_append, length_cons]
      omega
    · rw [hrest, hda, openLine_append, count_append, count_cons_self, hcn]
      omega

private theorem length_split {n : List UInt8} (h : n.contains equals = true) :
    fieldSize (asciiUppercase (n.takeWhile (· != equals)),
      (n.dropWhile (· != equals)).drop 1) = n.length + 1 := by
  rcases split_cases (x := equals) n with ⟨hnn, -, -⟩ | ⟨r, -, hsl, hdr⟩
  · exact absurd (contains_iff_mem.mp h) hnn
  have hln := congrArg List.length hsl
  simp only [length_append, length_cons] at hln
  rw [fieldSize, length_asciiUppercase, hdr]
  simp only [drop_succ_cons, drop_zero]
  omega

private theorem found_parseFields (fuel pos : Nat) (data : List UInt8) (fs fields' : Fields)
    (h : parseFields fuel pos data fs = .ok fields') : ∃ found, Found data fs fields' found := by
  induction fuel generalizing pos data fs with
  | zero =>
    obtain rfl := Except.ok.inj h
    exact ⟨[], Found.nothing data fs⟩
  | succ fuel ih =>
    rw [parseFields] at h
    split at h
    · obtain rfl := Except.ok.inj h
      exact ⟨[], Found.nothing data fs⟩
    rename_i hne
    obtain ⟨-, hln, hcn⟩ := line_cases hne
    simp only at h hln hcn
    generalize data.takeWhile (· != newline) = line at h hln
    generalize (data.dropWhile (· != newline)).drop 1 = rest at h hln hcn
    split at h
    · obtain ⟨found, hfn⟩ := ih _ _ _ h
      exact ⟨found, hfn.skip (by omega)⟩
    split at h
    · next heq =>
      split at h
      · cases h
      obtain ⟨found, hfn⟩ := ih _ _ _ h
      have hsz := length_split heq
      exact hfn.accepted (by omega) fun _ => hcn
    · split at h
      · cases h
      · split at h
        · obtain rfl := Except.ok.inj h
          exact ⟨[], Found.nothing data fs⟩
        · split at h
          · cases h
          · split at h
            · obtain rfl := Except.ok.inj h
              exact ⟨[], Found.nothing data fs⟩
            · next height _ hlen =>
              obtain ⟨found, hfn⟩ := ih _ _ _ h
              refine hfn.accepted (Nat.le_of_lt ?hlt) fun he => absurd he (Nat.ne_of_lt ?hlt)
              -- the length of the value takes up eight bytes that count for no field
              have hon := openLine_le_one ((rest.drop 8).drop (ofLittleEndian (rest.take 8) + 1))
              rw [fieldSize, length_asciiUppercase, length_take]
              simp only [length_drop] at hlen ⊢
              omega

end

section

variable {fields fs : Fields} {new : List (List UInt8 × List UInt8)} {key value : List UInt8}

private theorem mem_of_insertFields (h : (insertFields fs new)[key]? = some value) :
    (key, value) ∈ new ∨ fs[key]? = some value := by
  induction new generalizing fs with
  | nil => exact .inr h
  | cons field new ih =>
    rcases ih h with hmem | hmem
    · exact .inl (mem_cons_of_mem _ hmem)
    rw [ExtTreeMap.getElem?_insert] at hmem
    split at hmem
    · next heq =>
      obtain rfl := Option.some.inj hmem
      have hkey : field.1 = key := Std.LawfulEqOrd.eq_of_compare heq
      exact .inl (by rw [← hkey]; exact mem_cons_self)
    · exact .inr hmem

private theorem getElem?_insertFields_of_not_mem (h : key ∉ new.map Prod.fst) :
    (insertFields fs new)[key]? = fs[key]? := by
  induction new generalizing fs with
  | nil => rfl
  | cons field new ih =>
    rw [map_cons, mem_cons, not_or] at h
    rw [insertFields, foldl_cons, ← insertFields, ih h.2, ExtTreeMap.getElem?_insert, if_neg]
    intro heq
    exact h.1 (Std.LawfulEqOrd.eq_of_compare heq).symm

private theorem getElem?_insertFields (hds : (new.map Prod.fst).Nodup) (h : (key, value) ∈ new) :
    (insertFields fs new)[key]? = some value := by
  induction new generalizing fs with
  | nil => cases h
  | cons field new ih =>
    obtain ⟨hother, hds⟩ := nodup_cons.mp hds
    rw [insertFields, foldl_cons, ← insertFields]
    rcases mem_cons.mp h with rfl | h
    · rw [getElem?_insertFields_of_not_mem hother, ExtTreeMap.getElem?_insert_self]
    · exact ih hds h

private theorem getElem?_insert_trusted
    (h : t.head? = some underscore) (hkey : key.head? ≠ some underscore) :
    (fs.insert t value)[key]? = fs[key]? := by
  rw [ExtTreeMap.getElem?_insert, if_neg]
  intro heq
  rw [← Std.LawfulEqOrd.eq_of_compare heq] at hkey
  exact hkey h

theorem getElem?_new_addTrusted (s : Stamp) (p : Option Peer) (fs : Fields)
    (h : key.head? ≠ some underscore) :
    (JournalEntry.new s (addTrusted p fs)).fields[key]? = fs[key]? := by
  have hst : ∀ fs : Fields, (stampBoot s.bootId fs)[key]? = fs[key]? := by
    intro fs
    unfold stampBoot
    split
    · rfl
    split
    · exact getElem?_insert_trusted (by decide) h
    · rfl
  have htr : (ascii "_TRANSPORT").head? = some underscore := by decide
  rw [JournalEntry.new, hst]
  cases p with
  | none => exact getElem?_insert_trusted htr h
  | some p =>
    simp only [addTrusted]
    rw [getElem?_insert_trusted htr h, getElem?_insert_trusted (by decide) h,
      getElem?_insert_trusted (by decide) h, getElem?_insert_trusted (by decide) h]

end

section

/-- A client may set the field. -/
def Submittable (field : List UInt8 × List UInt8) : Prop :=
  validFieldName field.1 = true ∧ field.1.head? ≠ some underscore

variable {field : List UInt8 × List UInt8} (sent : List (List UInt8 × List UInt8))

private theorem parseFields_line (hname : Submittable field) (f pos : Nat) (fs : Fields)
    {data l : List UInt8} (hli : data.takeWhile (· != newline) = render field)
    (hrest : (data.dropWhile (· != newline)).drop 1 = l) :
    parseFields (f + 1) pos data fs =
      parseFields f (pos + (render field).length + 1) l (fs.insert field.1 field.2) := by
  obtain ⟨hvl, h⟩ := hname
  obtain ⟨hkey, hbt⟩ := of_validFieldName hvl
  have heq : equals ∉ field.1 := fun hmem => (isNameByte_bounds (hbt _ hmem)).2.1 rfl
  have hda : data ≠ [] := by
    rintro rfl
    simp [render] at hli
  have hno : render field ≠ [] := by simp [render]
  have hct : (render field).contains equals = true := by simp [render]
  have hutf8 : isUtf8 field.1 = true := by
    apply isUtf8_of_ascii
    intro b hb
    have hlow := (isNameByte_bounds (hbt b hb)).1
    omega
  have hsl : (render field).takeWhile (· != equals) = field.1 := takeWhile_separator heq field.2
  have haf : ((render field).dropWhile (· != equals)).drop 1 = field.2 := by
    rw [render, dropWhile_separator heq]
    rfl
  rw [parseFields, if_neg hda]
  simp only [hli, hrest, if_neg hno, hct, if_true, hsl, haf, hutf8, Bool.not_true,
    Bool.false_eq_true, if_false, asciiUppercase_name hbt, acceptField, hvl, h]

private theorem not_mem_render (hname : Submittable field) (hva : newline ∉ field.2) :
    newline ∉ render field := by
  have hbt := (of_validFieldName hname.1).2
  intro hmem
  rcases mem_append.mp hmem with hmem | hmem
  · exact (isNameByte_bounds (hbt _ hmem)).2.2 rfl
  rcases mem_cons.mp hmem with heq | hmem
  · exact absurd heq (by decide)
  · exact hva hmem

private theorem parseFields_payload (hna : ∀ field ∈ sent, Submittable field)
    (hvls : ∀ field ∈ sent, newline ∉ field.2) (f pos : Nat) (fs : Fields) (rest : List UInt8) :
    ∃ p', parseFields (f + sent.length) pos (payload sent ++ rest) fs =
      parseFields f p' rest (insertFields fs sent) := by
  induction sent generalizing pos fs with
  | nil => exact ⟨pos, rfl⟩
  | cons field sent ih =>
    have hva := hvls field mem_cons_self
    have hname := hna field mem_cons_self
    have hnn := not_mem_render hname hva
    have hda : payload (field :: sent) ++ rest =
        render field ++ newline :: (payload sent ++ rest) := by
      simp [payload]
    obtain ⟨p', hpos'⟩ := ih (fun field h => hna field (mem_cons_of_mem _ h))
      (fun field h => hvls field (mem_cons_of_mem _ h))
      (pos + (render field).length + 1) (fs.insert field.1 field.2)
    refine ⟨p', ?_⟩
    have hrest : ((render field ++ newline :: (payload sent ++ rest)).dropWhile
        (· != newline)).drop 1 = payload sent ++ rest := by
      rw [dropWhile_separator hnn]
      rfl
    rw [hda, length_cons, ← Nat.add_assoc,
      parseFields_line hname _ _ _ (takeWhile_separator hnn _) hrest, hpos']
    rfl

private theorem parseFields_payload_open (l : List UInt8 × List UInt8)
    (hna : ∀ field ∈ sent ++ [l], Submittable field)
    (hvls : ∀ field ∈ sent ++ [l], newline ∉ field.2) (f pos : Nat) (fields : Fields)
    (hfue : sent.length < f) :
    parseFields f pos (payload sent ++ render l) fields =
      .ok (insertFields fields (sent ++ [l])) := by
  obtain ⟨m, rfl⟩ : ∃ m, f = m + 1 + sent.length := ⟨f - 1 - sent.length, by omega⟩
  have hls : l ∈ sent ++ [l] := mem_append_right _ mem_cons_self
  have hnn := not_mem_render (hna l hls) (hvls l hls)
  obtain ⟨p', hpos'⟩ := parseFields_payload sent
    (fun field h => hna field (mem_append_left _ h))
    (fun field h => hvls field (mem_append_left _ h)) (m + 1) pos fields (render l)
  have hli : (render l).takeWhile (· != newline) = render l ∧
      (render l).dropWhile (· != newline) = [] := by
    rcases split_cases (x := newline) (render l) with ⟨-, htak, hdr⟩ | ⟨r, -, hsl, -⟩
    · exact ⟨htak, hdr⟩
    · exact absurd (hsl ▸ mem_append_right _ mem_cons_self) hnn
  have hrest : ((render l).dropWhile (· != newline)).drop 1 = [] := by
    rw [hli.2, drop_nil]
  rw [hpos', parseFields_line (hna l hls) _ _ _ hli.1 hrest]
  have hend : ∀ (f pos : Nat) (fields : Fields),
      parseFields f pos [] fields = .ok fields := by
    intro f pos fields
    cases f with
    | zero => rfl
    | succ f => rw [parseFields, if_pos rfl]
  rw [hend, insertFields, insertFields, foldl_append]
  rfl

private theorem parseFields_received {sent : List (List UInt8 × List UInt8)} (hsnt : sent ≠ [])
    (hna : ∀ field ∈ sent, Submittable field) (hvls : ∀ field ∈ sent, newline ∉ field.2)
    (hft : totalSize sent ≤ journalRecvBuf + 1) :
    parseFields ((payload sent).take journalRecvBuf).length 0
      ((payload sent).take journalRecvBuf) ∅ = .ok (insertFields ∅ sent) := by
  obtain ⟨i, last, rfl⟩ : ∃ i last, sent = i ++ [last] :=
    ⟨sent.dropLast, sent.getLast hsnt, (dropLast_append_getLast hsnt).symm⟩
  have hln := length_payload (i ++ [last])
  have hpd := payload_concat i last
  have hstr : i.length < (payload i ++ render last).length := by
    have hcn := length_le_totalSize i
    rw [length_append, length_payload, render, length_append, length_cons]
    omega
  by_cases hwh : totalSize (i ++ [last]) ≤ journalRecvBuf
  · rw [take_of_length_le (by omega)]
    obtain ⟨p', hpos'⟩ := parseFields_payload (i ++ [last]) hna hvls
      ((payload (i ++ [last])).length - (i ++ [last]).length) 0 ∅ []
    rw [append_nil, Nat.sub_add_cancel] at hpos'
    · rw [hpos']
      cases (payload (i ++ [last])).length - (i ++ [last]).length with
      | zero => rfl
      | succ f => rw [parseFields, if_pos rfl]
    · rw [hln]
      exact length_le_totalSize _
  · -- only the last newline does not fit
    have hon : (payload (i ++ [last])).take journalRecvBuf =
        payload i ++ render last := by
      rw [hpd, take_append_of_le_length, take_of_length_le]
      · rw [hpd, length_append, length_singleton] at hln
        omega
      · rw [hpd, length_append, length_singleton] at hln
        omega
    rw [hon]
    exact parseFields_payload_open i last hna hvls _ 0 ∅ hstr

private theorem count_payload {fs : List (List UInt8 × List UInt8)}
    (hna : ∀ field ∈ fs, Submittable field) : (payload fs).count newline =
      fs.length + (fs.map (·.2.count newline)).sum := by
  induction fs with
  | nil => rfl
  | cons field fs ih =>
    have hbt := (of_validFieldName (hna field mem_cons_self).1).2
    have hkey : field.1.count newline = 0 :=
      count_eq_zero.mpr fun hmem => (isNameByte_bounds (hbt _ hmem)).2.2 rfl
    have heq : (equals == newline) = false := by decide
    rw [payload, flatMap_cons, count_append, ← payload,
      ih (fun field h => hna field (mem_cons_of_mem _ h)), count_append, render, count_append,
      hkey, count_cons, heq, count_singleton_self, map_cons, sum_cons, length_cons]
    simp only [Bool.false_eq_true, if_false]
    omega

/-- When all fields of a submission are found in what was received of its datagram, the datagram
fits and no value holds a newline. -/
theorem recovered_only_if {sent found : List (List UInt8 × List UInt8)} {fields : Fields}
    (hsnt : sent ≠ []) (hnp : sent.Nodup) (hs : sent ⊆ found)
    (hna : ∀ field ∈ sent, Submittable field)
    (h : Found ((payload sent).take journalRecvBuf) ∅ fields found) :
    (∀ field ∈ sent, newline ∉ field.2) ∧ totalSize sent ≤ journalRecvBuf + 1 := by
  have hft := h.fits
  have hon := openLine_le_one ((payload sent).take journalRecvBuf)
  have hln := length_payload sent
  obtain ⟨p, hpe, hsub⟩ := subperm_of_subset hnp hs
  have hsz := totalSize_of_sublist hsub
  rw [totalSize_of_perm hpe, hpe.length_eq] at hsz
  have hco := List.Sublist.length_le hsub
  rw [hpe.length_eq] at hco
  have hcs := payload_closed hsnt
  -- every line is a field, so the number of newlines is that of the fields
  have hlines : (payload sent).count newline ≤ sent.length ∧
      totalSize sent ≤ journalRecvBuf + 1 := by
    rw [length_take] at hft
    by_cases hwh : (payload sent).length ≤ journalRecvBuf
    · have htak : (payload sent).take journalRecvBuf = payload sent := take_of_length_le hwh
      have hte : openLine (payload sent) = 0 := by
        rw [hcs, openLine_append]
        rfl
      have hth := h.tight
      rw [htak, hte] at hth hft
      have hcn := hth (by omega)
      omega
    · have hcut : (payload sent).take journalRecvBuf = (payload sent).dropLast := by
        rw [dropLast_eq_take]
        congr 1
        omega
      have hth := h.tight
      rw [length_take] at hth
      have hcn := hth (by omega)
      have hall : (payload sent).count newline =
          ((payload sent).take journalRecvBuf).count newline + 1 := by
        rw [hcut]
        conv_lhs => rw [hcs]
        rw [count_append, count_singleton_self]
      omega
  refine ⟨?_, hlines.2⟩
  have hct := count_payload hna
  have hzr : (sent.map (·.2.count newline)).sum = 0 := by omega
  intro field hfld
  exact count_eq_zero.mp
    (List.sum_eq_zero_iff_forall_eq_nat.mp hzr _ (List.mem_map.mpr ⟨field, hfld, rfl⟩))

/-- The fields of a submission arrive, with nothing else but what the receiver vouches for,
exactly when no value holds a newline and the datagram, its last byte apart, fits into the
receive buffer. -/
theorem submission_recovered_iff (system : SendSystem) (stamp : Stamp) (peer : Option Peer)
    (fields : List (List UInt8 × List UInt8)) (datagram : List UInt8)
    (hnames : ∀ field ∈ fields, Submittable field) (hdistinct : (fields.map Prod.fst).Nodup)
    (hsent : rustdJournalSendv system (fields.map render) = .ok datagram) :
    receiveDatagram stamp peer datagram =
        .ok (JournalEntry.new stamp (addTrusted peer (insertFields ∅ fields))) ↔
      (∀ field ∈ fields, newline ∉ field.2) ∧ totalSize fields ≤ journalRecvBuf + 1 := by
  obtain ⟨hne, rfl⟩ := rustdJournalSendv_eq_ok hsent
  unfold receiveDatagram parseDatagramWithPeer
  constructor
  · intro h
    split at h
    · cases h
    rename_i parsed hpa
    split at h
    · cases h
    obtain ⟨found, hfn⟩ := found_parseFields _ _ _ _ _ hpa
    refine recovered_only_if hne (List.Nodup.of_map Prod.fst hdistinct) ?_ hnames hfn
    rintro ⟨key, value⟩ hfld
    have hkey := (hnames _ hfld).2
    have hetr := congrArg (·.fields[key]?) (Except.ok.inj h)
    simp only [getElem?_new_addTrusted stamp peer _ hkey,
      getElem?_insertFields hdistinct hfld, hfn.inserted] at hetr
    rcases mem_of_insertFields hetr with hmem | hmem
    · exact hmem
    · simp at hmem
  · rintro ⟨hvls, hft⟩
    rw [parseFields_received hne hnames hvls hft]
    have hfi : (insertFields ∅ fields).isEmpty = false := by
      obtain ⟨field, hfld⟩ := exists_mem_of_ne_nil fields hne
      have hsome : (insertFields ∅ fields)[field.1]? = some field.2 :=
        getElem?_insertFields hdistinct hfld
      rw [← Bool.not_eq_true, ExtTreeMap.isEmpty_iff]
      intro hempty
      simp [hempty] at hsome
    simp only [hfi, Bool.false_eq_true, if_false]

theorem submission_recovered_message :
    receiveDatagram {} none (ascii "MESSAGE=a\nPRIORITY=6\n") = .ok (JournalEntry.new {}
      (addTrusted none
        (insertFields ∅ [(ascii "MESSAGE", ascii "a"), (ascii "PRIORITY", ascii "6")]))) := by
  have hnames : ∀ field ∈ [(ascii "MESSAGE", ascii "a"), (ascii "PRIORITY", ascii "6")],
      Submittable field :=
    forall_mem_cons.mpr ⟨⟨by decide, by decide⟩, forall_mem_singleton.mpr
      ⟨by decide, by decide⟩⟩
  exact (submission_recovered_iff {} {} none _ _ hnames (by decide) (by decide)).mpr
    ⟨forall_mem_cons.mpr ⟨by decide, forall_mem_singleton.mpr (by decide)⟩, by decide⟩

/-- A newline in a value lets the sender of one field set another one. -/
theorem submission_forged :
    rustdJournalSendv {} [render (ascii "MESSAGE", ascii "a\nPRIORITY=0")] =
        .ok (ascii "MESSAGE=a\nPRIORITY=0\n") ∧
      (receiveDatagram {} none (ascii "MESSAGE=a\nPRIORITY=0\n")).toOption.map
        (fun entry => (entry.fields[ascii "MESSAGE"]?, entry.fields[ascii "PRIORITY"]?)) =
          some (some (ascii "a"), some (ascii "0")) := by
  decide

end

end Rustd.Journal
