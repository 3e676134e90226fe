import Rustd.Journal.Submission
import Rustd.JournalFile.Format

/-!
# What the receiver makes of any datagram

`tokens` says which fields stand in a datagram, with lengths that are plain numbers. The loop of
the receiver collects just those fields, as long as the names are UTF-8 and no announced length
makes its position wrap.
-/

namespace Rustd.Journal

open Base List Std.ExtTreeMap

section

structure Token where
  name : List UInt8
  value : Option (List UInt8)
  /-- Where the announced value ends; zero if no length is announced. -/
  stop : Nat := 0
  deriving DecidableEq

def Token.Readable (token : Token) : Prop := isUtf8 token.name = true ∧ token.stop < 2 ^ 64

theorem length_rest (h : d ≠ []) : ((d.dropWhile (· != newline)).drop 1).length < d.length := by
  have hle := (dropWhile_sublist (· != newline) (l := d)).length_le
  have hpos := length_pos_of_ne_nil h
  rw [length_drop]
  omega

/-- The fields of the bytes from a position on. A malformed or truncated field is the last. -/
def tokens (pos : Nat) (data : List UInt8) : List Token :=
  if h : data = [] then []
  else
    let line := data.takeWhile (· != newline)
    let rest := (data.dropWhile (· != newline)).drop 1
    have hrest : rest.length < data.length := length_rest h
    let pos := pos + line.length + 1
    if line = [] then tokens pos rest
    else if line.contains equals then
      let key := line.takeWhile (· != equals)
      ⟨key, some ((line.dropWhile (· != equals)).drop 1), 0⟩ ::
        if isUtf8 key then tokens pos rest else []
    else if !isUtf8 line ∨ rest.length < 8 then [⟨line, none, 0⟩]
    else
      let stop := pos + 8 + ofLittleEndian (rest.take 8)
      let data := rest.drop 8
      let len := ofLittleEndian (rest.take 8)
      if data.length < len then [⟨line, none, stop⟩]
      else ⟨line, some (data.take len), stop⟩ :: tokens (stop + 1) (data.drop (len + 1))
termination_by data.length
decreasing_by
  · exact hrest
  · exact hrest
  · simp only [length_drop]
    simp only [rest, length_drop] at hrest
    omega

def Token.accept (fields : Fields) (token : Token) : Fields :=
  match token.value with
  | some value => acceptField fields (asciiUppercase token.name) value
  | none => fields

def Collects (found : List Token) (fields : Fields) (result : Except Stop Fields) : Prop :=
  (∀ token ∈ found, token.Readable) ∧ result = .ok (found.foldl Token.accept fields) ∨
    (∃ token ∈ found, ¬ token.Readable) ∧ ∃ stop, result = .error stop

variable {token : Token} {found : List Token} {fields fs : Fields}

theorem Collects.cons {result : Except Stop Fields} (hto : token.Readable)
    (h : Collects found (token.accept fields) result) :
    Collects (token :: found) fields result := by
  rcases h with ⟨hall, hok⟩ | ⟨⟨bad, hbad, hu⟩, herr⟩
  · exact .inl ⟨forall_mem_cons.mpr ⟨hto, hall⟩, hok⟩
  · exact .inr ⟨⟨bad, mem_cons_of_mem _ hbad, hu⟩, herr⟩

theorem Collects.unreadable (s : Stop) (h : ¬ token.Readable) :
    Collects (token :: found) fs (.error s) :=
  .inr ⟨⟨token, mem_cons_self, h⟩, s, rfl⟩

theorem Collects.nothing (fs : Fields) : Collects [] fs (.ok fs) :=
  .inl ⟨forall_mem_nil _, rfl⟩

private theorem collects_parseFields (f pos : Nat) (d : List UInt8) (fields : Fields)
    (hfue : d.length ≤ f) : Collects (tokens pos d) fields (parseFields f pos d fields) := by
  induction f generalizing pos d fields with
  | zero =>
    obtain rfl := length_eq_zero_iff.mp (Nat.le_zero.mp hfue)
    rw [tokens]
    exact Collects.nothing fields
  | succ f ih =>
    rw [parseFields, tokens]
    split
    · exact Collects.nothing fields
    next hda =>
    have hrest := length_rest hda
    simp only
    generalize d.takeWhile (· != newline) = line
    generalize (d.dropWhile (· != newline)).drop 1 = rest at hrest ⊢
    split
    · exact ih _ rest fields (by omega)
    split
    · -- a field on a line
      generalize line.takeWhile (· != equals) = key
      cases hname : isUtf8 key with
      | false => exact Collects.unreadable _ fun h => Bool.false_ne_true (hname ▸ h.1)
      | true => exact Collects.cons ⟨hname, Nat.two_pow_pos 64⟩ (ih _ rest _ (by omega))
    -- a name on a line of its own
    cases hname : isUtf8 line with
    | false => exact Collects.unreadable _ fun h => Bool.false_ne_true (hname ▸ h.1)
    | true =>
      simp only [Bool.not_true, Bool.false_eq_true, if_false, false_or]
      split
      · exact Collects.cons ⟨hname, Nat.two_pow_pos 64⟩ (Collects.nothing fields)
      by_cases hwr : 2 ^ 64 ≤ pos + line.length + 1 + 8 + ofLittleEndian (rest.take 8)
      · rw [if_pos hwr]
        split
        · exact Collects.unreadable _ fun h => absurd h.2 (Nat.not_lt.mpr hwr)
        · exact Collects.unreadable _ fun h => absurd h.2 (Nat.not_lt.mpr hwr)
      rw [if_neg hwr]
      split
      · exact Collects.cons ⟨hname, Nat.lt_of_not_le hwr⟩ (Collects.nothing fields)
      · refine Collects.cons ⟨hname, Nat.lt_of_not_le hwr⟩ (ih _ _ _ ?_)
        simp only [length_drop]
        omega

end

section

def collected (data : List UInt8) : Fields := (tokens 0 data).foldl Token.accept ∅

/-- The receiver gives what stands in a datagram before the first malformed or truncated field,
exactly if all names that it reaches are UTF-8 and no value is announced to end past the largest
position. -/
theorem datagram_parsed_iff (stamp : Stamp) (data : List UInt8) (peer : Option Peer) :
    (parseFields data.length 0 data ∅ = .ok (collected data) ↔
      ∀ token ∈ tokens 0 data, token.Readable) ∧
    ((∀ token ∈ tokens 0 data, token.Readable) →
      parseDatagramWithPeer stamp data peer =
        if (collected data).isEmpty then .error .dropped
        else .ok (JournalEntry.new stamp (addTrusted peer (collected data)))) := by
  have hlo := collects_parseFields data.length 0 data ∅ (le_refl _)
  have hok : (∀ token ∈ tokens 0 data, token.Readable) →
      parseFields data.length 0 data ∅ = .ok (collected data) := by
    intro hall
    rcases hlo with ⟨-, hok⟩ | ⟨⟨token, hto, hun⟩, -⟩
    · exact hok
    · exact absurd (hall token hto) hun
  refine ⟨⟨fun hpa => ?_, hok⟩, fun hall => ?_⟩
  · rcases hlo with ⟨hall, -⟩ | ⟨-, s, herr⟩
    · exact hall
    · rw [herr] at hpa
      cases hpa
  · rw [parseDatagramWithPeer, hok hall]

/-- An announced length can make the position wrap, and a name that is not UTF-8 loses the fields
before it. -/
theorem datagram_not_total :
    parseDatagramWithPeer {} ([65, newline] ++ List.replicate 8 255) none = .error .panicked ∧
    parseDatagramWithPeer {} (ascii "A=1\n" ++ [255, equals]) none = .error .dropped ∧
    (collected (ascii "A=1\n" ++ [255, equals]))[ascii "A"]? = some (ascii "1") := by
  refine ⟨rfl, rfl, by decide +kernel⟩

end

section

private theorem journalFieldValid_of_validFieldName {key : List UInt8}
    (h : validFieldName key = true) :
    JournalFile.journalFieldValid key = true := by
  cases key with
  | nil => cases h
  | cons a key =>
    simp only [validFieldName, Bool.and_eq_true] at h
    obtain ⟨⟨hln, hfr⟩, hall⟩ := h
    simp only [JournalFile.journalFieldValid, Bool.and_eq_true]
    exact ⟨⟨⟨rfl, hln⟩, hfr⟩, hall⟩

def FromSender (fields : Fields) : Prop :=
  ∀ key, fields[key]? ≠ none → key.head? ≠ some underscore ∧ validFieldName key = true

variable {fields fs fields' : Fields}

private theorem fromSender_acceptField (h : FromSender fs) (key value : List UInt8) :
    FromSender (acceptField fs key value) := by
  unfold acceptField
  split
  · exact h
  split
  · exact h
  next hvl hhd =>
  intro v hother
  rw [Std.ExtTreeMap.getElem?_insert] at hother
  split at hother
  · next heq =>
    obtain rfl := Std.LawfulEqOrd.eq_of_compare heq
    exact ⟨hhd, by simpa using hvl⟩
  · exact h v hother

private theorem fromSender_foldl (found : List Token) (fs : Fields) (h : FromSender fs) :
    FromSender (found.foldl Token.accept fs) := by
  induction found generalizing fs with
  | nil => exact h
  | cons token found ih =>
    refine ih _ ?_
    unfold Token.accept
    split
    · exact fromSender_acceptField h _ _
    · exact h

private theorem of_parseDatagramWithPeer (h : parseDatagramWithPeer s d p = .ok e) :
    ∃ fs, FromSender fs ∧ e = JournalEntry.new s (addTrusted p fs) := by
  rcases collects_parseFields d.length 0 d ∅ (le_refl _) with ⟨-, hok⟩ | ⟨-, st, herr⟩
  · rw [parseDatagramWithPeer, hok] at h
    simp only at h
    split at h
    · cases h
    refine ⟨_, fromSender_foldl _ ∅ ?_, (Except.ok.inj h).symm⟩
    intro key hkey
    exact absurd getElem?_empty hkey
  · rw [parseDatagramWithPeer, herr] at h
    cases h

def SameTrusted (fields fields' : Fields) : Prop :=
  ∀ key : List UInt8, key.head? = some underscore → fields[key]? = fields'[key]?

private theorem FromSender.sameTrusted (h : FromSender fs) (h' : FromSender fields') :
    SameTrusted fs fields' := by
  intro key hkey
  have hnn : ∀ {fs : Fields}, FromSender fs → fs[key]? = none :=
    fun h => by_contra fun hsome => (h key hsome).1 hkey
  rw [hnn h, hnn h']

theorem SameTrusted.insert (h : SameTrusted fs fields') (key va : List UInt8) :
    SameTrusted (fs.insert key va) (fields'.insert key va) := by
  intro v hother
  rw [Std.ExtTreeMap.getElem?_insert, Std.ExtTreeMap.getElem?_insert, h v hother]

theorem SameTrusted.addTrusted (h : SameTrusted fs fields') (p : Option Peer) :
    SameTrusted (addTrusted p fs) (addTrusted p fields') := by
  cases p with
  | none => exact h.insert _ _
  | some p => exact (((h.insert _ _).insert _ _).insert _ _).insert _ _

theorem SameTrusted.stampBoot (h : SameTrusted fs fields') (b : Option (List UInt8)) :
    SameTrusted (stampBoot b fs) (stampBoot b fields') := by
  have hct : fs.contains (ascii "_BOOT_ID") = fields'.contains (ascii "_BOOT_ID") := by
    rw [contains_eq_isSome_getElem?, contains_eq_isSome_getElem?, h _ (by decide)]
  unfold Journal.stampBoot
  rw [hct]
  split
  · exact h
  cases b with
  | none => exact h
  | some b => exact h.insert _ _

/-- What an entry says under a name that starts with an underscore does not depend on what the
sender wrote, and all its other names are names of the file format. -/
theorem trusted_fields_sender_independent (stamp stamp' : Stamp)
    (hboot : stamp'.bootId = stamp.bootId) (peer : Option Peer) (data data' : List UInt8)
    (entry entry' : JournalEntry) (h : parseDatagramWithPeer stamp data peer = .ok entry)
    (h' : parseDatagramWithPeer stamp' data' peer = .ok entry') :
    (∀ key : List UInt8, key.head? = some underscore → entry.fields[key]? = entry'.fields[key]?) ∧
      ∀ key, entry.fields[key]? ≠ none → key.head? ≠ some underscore →
        JournalFile.journalFieldValid key = true := by
  obtain ⟨fields, hfl, rfl⟩ := of_parseDatagramWithPeer h
  obtain ⟨fields', hfl', rfl⟩ := of_parseDatagramWithPeer h'
  refine ⟨?_, fun key hkey hhd => ?_⟩
  · have hsa := ((hfl.sameTrusted hfl').addTrusted peer).stampBoot stamp.bootId
    rw [JournalEntry.new, JournalEntry.new, hboot]
    exact hsa
  · rw [getElem?_new_addTrusted stamp peer fields hhd] at hkey
    exact journalFieldValid_of_validFieldName (hfl key hkey).2

/-- A sender that claims to be another process. -/
theorem forged_pid_sender_independent :
    ∃ entry entry', parseDatagramWithPeer {} (ascii "_PID=1\nA=1\n") (some ⟨7, 8, 9⟩) = .ok entry ∧
      parseDatagramWithPeer {} (ascii "b=2\n") (some ⟨7, 8, 9⟩) = .ok entry' ∧
      entry.fields[ascii "_PID"]? = entry'.fields[ascii "_PID"]? := by
  have hfr : parseDatagramWithPeer {} (ascii "_PID=1\nA=1\n") (some ⟨7, 8, 9⟩) = .ok _ := rfl
  have hsn : parseDatagramWithPeer {} (ascii "b=2\n") (some ⟨7, 8, 9⟩) = .ok _ := rfl
  exact ⟨_, _, hfr, hsn, (trusted_fields_sender_independent {} {} rfl _ _ _ _ _ hfr
    hsn).1 _ (by decide)⟩

end

end Rustd.Journal
