import Rustd.Base.Escape
import Rustd.Base.Text

/-!
# Object paths of units

`src/dbus/manager_iface.rs`: a unit is published at an object path whose last component is its
escaped name (`escape_unit_name`), and at an alias whose last component is `_` and the
invocation ID in hexadecimal. Names are the bytes of the source's strings.

The escaping passes the underscore through, so a name can hold what looks like an escape. Two
units have the same path exactly when their names read the same.
-/

namespace Rustd.Dbus

open Base List

variable (b : UInt8)

def isDigit : Bool := 48 ≤ b && b ≤ 57

def isAlphanumeric : Bool :=
  isDigit b || (65 ≤ b && b ≤ 90) || (97 ≤ b && b ≤ 122)

def underscore : UInt8 := 95

def dot : UInt8 := 46

def atSign : UInt8 := 64

def slash : UInt8 := 47

/-- One digit of the lower-case hexadecimal format `{:x}`. -/
def hexDigit (n : Nat) : UInt8 := if n < 10 then (48 + n).toUInt8 else (87 + n).toUInt8

/-- The two digits of the format `{:02x}`. -/
def hexDigits : UInt8 × UInt8 := (hexDigit (b.toNat / 16), hexDigit (b.toNat % 16))

/-- A byte that `escape_unit_name` keeps. -/
def isLabel : Bool := isAlphanumeric b || b == underscore

def hexValue : Option Nat :=
  if isDigit b then some (b.toNat - 48)
  else if 97 ≤ b && b ≤ 102 then some (b.toNat - 87)
  else none

def escapedByte (high low : UInt8) : Option UInt8 :=
  match hexValue high, hexValue low with
  | some h, some l =>
    if isLabel (16 * h + l).toUInt8 then none else some (16 * h + l).toUInt8
  | _, _ => none

private theorem hexValue_hexDigit : ∀ n < 16, hexValue (hexDigit n) = some n := by decide

variable {name component : List UInt8} {b : UInt8}

private theorem hexDigit_of_hexValue (h : hexValue b = some n) : n < 16 ∧ hexDigit n = b := by
  unfold hexValue at h
  split at h
  · next hdg =>
    obtain ⟨hlow, hhg⟩ : 48 ≤ b.toNat ∧ b.toNat ≤ 57 := by
      simpa [isDigit, UInt8.le_iff_toNat_le] using hdg
    obtain rfl : b.toNat - 48 = n := by simpa using h
    refine ⟨by omega, ?_⟩
    rw [hexDigit, if_pos (by omega)]
    apply UInt8.toNat_inj.mp
    rw [Nat.toUInt8_eq, UInt8.toNat_ofNat']
    omega
  · split at h
    · next hlr =>
      obtain ⟨hlow, hhg⟩ : 97 ≤ b.toNat ∧ b.toNat ≤ 102 := by
        simpa [UInt8.le_iff_toNat_le] using hlr
      obtain rfl : b.toNat - 87 = n := by simpa using h
      refine ⟨by omega, ?_⟩
      rw [hexDigit, if_neg (by omega)]
      apply UInt8.toNat_inj.mp
      rw [Nat.toUInt8_eq, UInt8.toNat_ofNat']
      omega
    · cases h

private theorem isLabel_hexDigit : ∀ n < 16, isLabel (hexDigit n) = true := by decide

private theorem hexDigit_ne_underscore : ∀ n < 16, hexDigit n ≠ underscore := by decide

private theorem escapedByte_eq_some {high low : UInt8} (h : escapedByte high low = some b) :
    isLabel b = false ∧ hexDigits b = (high, low) ∧
      ∃ m n, m < 16 ∧ n < 16 ∧ high = hexDigit m ∧ low = hexDigit n := by
  unfold escapedByte at h
  split at h
  · next m n hm hn =>
    obtain ⟨hm16, hhg⟩ := hexDigit_of_hexValue hm
    obtain ⟨hn16, hlow⟩ := hexDigit_of_hexValue hn
    split at h
    · cases h
    rename_i hla
    obtain rfl : (16 * m + n).toUInt8 = b := by simpa using h
    have hva : (16 * m + n).toUInt8.toNat = 16 * m + n := by
      rw [Nat.toUInt8_eq, UInt8.toNat_ofNat']
      omega
    have hdiv : (16 * m + n) / 16 = m := by omega
    have hmod : (16 * m + n) % 16 = n := by omega
    refine ⟨by simpa using hla, ?_, m, n, hm16, hn16, hhg.symm, hlow.symm⟩
    rw [hexDigits, hva, hdiv, hmod, hhg, hlow]
  · cases h

/-- The escaping of `escape_unit_name` without the rule for a leading digit. -/
def labelEscaping : Escaping UInt8 where
  marker := underscore
  plain := isLabel
  digits := hexDigits
  letter := escapedByte
  plain_marker := by decide
  letter_digits b hb := by
    have hlt := b.toNat_lt
    have hbyte : (16 * (b.toNat / 16) + b.toNat % 16).toUInt8 = b := by
      rw [Nat.div_add_mod, Nat.toUInt8_eq, UInt8.ofNat_toNat]
    rw [hexDigits, escapedByte, hexValue_hexDigit _ (by omega), hexValue_hexDigit _ (by omega)]
    simp only [hbyte, hb, Bool.false_eq_true, if_false]
  plain_of_letter h := (escapedByte_eq_some h).1
  digits_of_letter h := (escapedByte_eq_some h).2.1
  plain_digits h := by
    obtain ⟨-, -, m, n, hm, hn, rfl, rfl⟩ := escapedByte_eq_some h
    exact ⟨isLabel_hexDigit m hm, isLabel_hexDigit n hn⟩
  digits_ne_marker h := by
    obtain ⟨-, -, m, n, hm, hn, rfl, rfl⟩ := escapedByte_eq_some h
    exact ⟨hexDigit_ne_underscore m hm, hexDigit_ne_underscore n hn⟩

/-- The first byte is a digit: `starts_with(|c| c.is_ascii_digit())`. -/
def startsWithDigit : List UInt8 → Bool
  | [] => false
  | b :: _ => isDigit b

/-- `escape_unit_name` of `src/dbus/manager_iface.rs:6246`. -/
def escapeUnitName (name : List UInt8) : List UInt8 :=
  let out := labelEscaping.escape name
  if startsWithDigit out then underscore :: out else out

/-- `UNIT_NAME_MAX`; `src/dbus/manager_iface.rs`. -/
def unitNameMax : Nat := 256

/-- The unit types of `valid_unit_name`. -/
def unitSuffixes : List (List UInt8) :=
  [ascii "service", ascii "socket", ascii "target", ascii "device", ascii "mount",
    ascii "automount", ascii "swap", ascii "timer", ascii "path", ascii "slice", ascii "scope"]

/-- A byte that `valid_unit_name` allows before the suffix. -/
def isNameByte (b : UInt8) : Bool := isAlphanumeric b || (ascii ":-_.\\@").contains b

/-- `valid_unit_name` of `src/dbus/manager_iface.rs:4997`. -/
def validUnitName (name : List UInt8) : Bool :=
  if name.isEmpty || decide (unitNameMax ≤ name.length) then false
  else match rsplitOnce dot name with
    | none => false
    | some (before, suffix) =>
      if before.isEmpty || !unitSuffixes.contains suffix then false
      else before.all isNameByte && before.head? != some atSign

/-- `DbusObjectNamespace` of `src/dbus/manager_iface.rs:87`. -/
inductive DbusObjectNamespace where
  | native
  | compatibility
  deriving DecidableEq

/-- `DbusObjectNamespace::root` of `src/dbus/manager_iface.rs:102`. -/
def DbusObjectNamespace.root : DbusObjectNamespace → List UInt8
  | .native => ascii "/io/rustd/Manager1"
  | .compatibility => ascii "/org/freedesktop/systemd1"

def isComponent (component : List UInt8) : Bool := !component.isEmpty && component.all isLabel

variable (tryFrom : List UInt8 → Option (List UInt8)) (ns : DbusObjectNamespace)

/-- `unit_path_for`, given `OwnedObjectPath::try_from` of the D-Bus library. -/
def unitPathFor (name : List UInt8) : Option (List UInt8) :=
  tryFrom (ns.root ++ ascii "/unit/" ++ escapeUnitName name)

abbrev InvocationId := { id : List UInt8 // id.length = 16 }

variable (id : InvocationId)

/-- `format_id128` of `src/dbus/manager_iface.rs:6109`. -/
def formatId128 : List UInt8 :=
  id.val.flatMap fun b => [(hexDigits b).1, (hexDigits b).2]

def invocationComponent : List UInt8 := underscore :: formatId128 id

/-- `invocation_id_path_for`. -/
def invocationIdPathFor : Option (List UInt8) :=
  tryFrom (ns.root ++ ascii "/unit/" ++ invocationComponent id)

/-! ### Reading a name -/

def lead (name : List UInt8) : List UInt8 :=
  if startsWithDigit name then underscore :: name else name

/-- How a name reads when every `_xx` in it is taken for an escaped byte. -/
def reading (name : List UInt8) : List UInt8 := labelEscaping.unescape (lead name)

private theorem isLabel_of_isDigit (h : isDigit b = true) : isLabel b = true := by
  simp [isLabel, isAlphanumeric, h]

private theorem startsWithDigit_escape (name : List UInt8) :
    startsWithDigit (labelEscaping.escape name) = startsWithDigit name := by
  cases name with
  | nil => rfl
  | cons b name =>
    cases hb : isLabel b with
    | true => rw [Escaping.escape_cons_plain (e := labelEscaping) hb]; rfl
    | false =>
      have hdg : isDigit b = false := by
        cases hd : isDigit b with
        | false => rfl
        | true => rw [isLabel_of_isDigit hd] at hb; cases hb
      rw [Escaping.escape_cons_escaped (e := labelEscaping) hb]
      exact hdg.symm

private theorem escapeUnitName_eq (name : List UInt8) :
    escapeUnitName name = labelEscaping.escape (lead name) := by
  unfold escapeUnitName lead
  simp only [startsWithDigit_escape]
  split
  · exact (Escaping.escape_cons_plain labelEscaping.plain_marker name).symm
  · rfl

private theorem escapeUnitName_eq_iff (a b : List UInt8) :
    escapeUnitName a = escapeUnitName b ↔ reading a = reading b := by
  rw [escapeUnitName_eq, escapeUnitName_eq, Escaping.escape_eq_iff, reading, reading]

/-! ### Components and paths of valid names -/

private theorem isLabel_of_mem_escapeUnitName (h : b ∈ escapeUnitName name) : isLabel b = true := by
  rw [escapeUnitName_eq] at h
  exact Escaping.plain_of_mem_escape (e := labelEscaping) h

private theorem mem_escapeUnitName (h : b ∈ name) (hb : isLabel b = true) :
    b ∈ escapeUnitName name := by
  rw [escapeUnitName_eq]
  refine Escaping.mem_escape_of_plain (e := labelEscaping) ?_ hb
  unfold lead
  split
  · exact mem_cons_of_mem _ h
  · exact h

private theorem validUnitName_suffix (h : validUnitName name = true) :
    ∃ l suffix, suffix ∈ unitSuffixes ∧ name = l ++ dot :: suffix := by
  unfold validUnitName at h
  split at h
  · cases h
  split at h
  · cases h
  next l suffix hsl =>
  split at h
  · cases h
  rename_i hsu
  obtain ⟨-, hname⟩ := rsplitOnce_eq_some.mp hsl
  refine ⟨l, suffix, ?_, hname⟩
  have hbo : ¬l = [] ∧ suffix ∈ unitSuffixes := by simpa using hsu
  exact hbo.2

private theorem unitSuffixes_letter : ∀ s ∈ unitSuffixes,
    ∃ b ∈ s, isLabel b = true ∧ b ≠ underscore ∧ hexValue b = none := by decide

private theorem escapeUnitName_letter (h : validUnitName name = true) :
    ∃ b ∈ escapeUnitName name, b ≠ underscore ∧ hexValue b = none := by
  obtain ⟨l, s, hs, hname⟩ := validUnitName_suffix h
  obtain ⟨b, hmem, hla, hne, hhex⟩ := unitSuffixes_letter s hs
  refine ⟨b, mem_escapeUnitName ?_ hla, hne, hhex⟩
  rw [hname]
  exact mem_append_right _ (mem_cons_of_mem _ hmem)

private theorem isComponent_escapeUnitName (h : validUnitName name = true) :
    isComponent (escapeUnitName name) = true := by
  obtain ⟨b, hb, -⟩ := escapeUnitName_letter h
  have hne : escapeUnitName name ≠ [] := ne_nil_of_mem hb
  simp only [isComponent, Bool.and_eq_true, Bool.not_eq_true', isEmpty_eq_false_iff,
    List.all_eq_true]
  exact ⟨hne, fun c hc => isLabel_of_mem_escapeUnitName hc⟩

private theorem hexValue_of_mem_formatId128 {id : InvocationId} (h : b ∈ formatId128 id) :
    hexValue b ≠ none := by
  obtain ⟨c, -, hc⟩ := mem_flatMap.mp h
  have hlt := c.toNat_lt
  simp only [hexDigits, mem_cons, not_mem_nil, or_false] at hc
  rcases hc with rfl | rfl
  · simp [hexValue_hexDigit (c.toNat / 16) (by omega)]
  · simp [hexValue_hexDigit (c.toNat % 16) (by omega)]

private theorem isComponent_invocation (id : InvocationId) :
    isComponent (invocationComponent id) = true := by
  have hlabel : ∀ b : UInt8, hexValue b ≠ none → isLabel b = true := by
    decide +kernel
  simp only [isComponent, invocationComponent, Bool.and_eq_true, all_cons, all_eq_true]
  exact ⟨rfl, by decide, fun b hb => hlabel b (hexValue_of_mem_formatId128 hb)⟩

private theorem escapeUnitName_ne_invocation (h : validUnitName name = true) (id : InvocationId) :
    escapeUnitName name ≠ invocationComponent id := by
  obtain ⟨b, hb, hne, hhex⟩ := escapeUnitName_letter h
  intro heq
  rw [heq, invocationComponent, mem_cons] at hb
  rcases hb with hb | hb
  · exact hne hb
  · exact hexValue_of_mem_formatId128 hb hhex

def DbusObjectNamespace.components : DbusObjectNamespace → List (List UInt8)
  | .native => [ascii "io", ascii "rustd", ascii "Manager1", ascii "unit"]
  | .compatibility => [ascii "org", ascii "freedesktop", ascii "systemd1", ascii "unit"]

variable (ns : DbusObjectNamespace)

private theorem path_eq_intercalate (component : List UInt8) :
    ns.root ++ ascii "/unit/" ++ component =
      [slash].intercalate ([] :: (ns.components ++ [component])) := by
  cases ns <;> simp [List.intercalate, DbusObjectNamespace.components] <;> rfl

private theorem isComponent_components : ns.components.all isComponent = true := by
  cases ns <;> decide

/-- What is documented of `OwnedObjectPath::try_from`: components of letters, digits and
underscores, each after a slash, are an object path, and it is the path that is given. -/
def ReturnsObjectPaths (tryFrom : List UInt8 → Option (List UInt8)) : Prop :=
  ∀ components, components ≠ [] → components.all isComponent = true →
    tryFrom ([slash].intercalate ([] :: components)) = some ([slash].intercalate ([] :: components))

variable {tryFrom : List UInt8 → Option (List UInt8)}

private theorem tryFrom_component (hpaths : ReturnsObjectPaths tryFrom)
    (h : isComponent component = true) :
    tryFrom (ns.root ++ ascii "/unit/" ++ component) =
      some (ns.root ++ ascii "/unit/" ++ component) := by
  rw [path_eq_intercalate]
  refine hpaths _ (by simp) ?_
  rw [all_append, isComponent_components, all_cons, h]
  rfl

private theorem unitPathFor_eq (hpaths : ReturnsObjectPaths tryFrom)
    (h : validUnitName name = true) :
    unitPathFor tryFrom ns name = some (ns.root ++ ascii "/unit/" ++ escapeUnitName name) :=
  tryFrom_component ns hpaths (isComponent_escapeUnitName h)

private theorem path_ne_of_ne {a b : List UInt8} (h : a ≠ b) (ns ns' : DbusObjectNamespace) :
    ns.root ++ ascii "/unit/" ++ a ≠ ns'.root ++ ascii "/unit/" ++ b := by
  intro heq
  by_cases hns : ns = ns'
  · subst hns
    exact h (append_cancel_left heq)
  -- the roots differ in their second byte
  have hsn := congrArg (·.tail.head?) heq
  revert hsn hns
  cases ns <;> cases ns' <;> simp [DbusObjectNamespace.root, ascii]

/-- The object paths of two units identify them. -/
structure PathsIdentify (tryFrom : List UInt8 → Option (List UInt8)) (a b : List UInt8) : Prop where
  components : isComponent (escapeUnitName a) = true ∧ isComponent (escapeUnitName b) = true
  distinct : escapeUnitName a ≠ escapeUnitName b
  noAlias : ∀ id, escapeUnitName a ≠ invocationComponent id ∧
    escapeUnitName b ≠ invocationComponent id
  published : ∀ ns ns', ∃ path path', unitPathFor tryFrom ns a = some path ∧
    unitPathFor tryFrom ns' b = some path' ∧ path ≠ path'
  unaliased : ∀ ns ns' id, unitPathFor tryFrom ns a ≠ invocationIdPathFor tryFrom ns' id ∧
    unitPathFor tryFrom ns b ≠ invocationIdPathFor tryFrom ns' id

private theorem unitPathFor_ne_invocation (hpaths : ReturnsObjectPaths tryFrom)
    (h : validUnitName name = true) (ns ns' : DbusObjectNamespace) (id : InvocationId) :
    unitPathFor tryFrom ns name ≠ invocationIdPathFor tryFrom ns' id := by
  rw [unitPathFor_eq ns hpaths h, invocationIdPathFor,
    tryFrom_component ns' hpaths (isComponent_invocation id)]
  intro heq
  exact path_ne_of_ne (escapeUnitName_ne_invocation h id) ns ns' (Option.some.inj heq)

/-- The object paths of two valid unit names identify them exactly when the names still differ
once every `_xx` in them is read as an escaped byte and a leading digit has its underscore. -/
theorem pathsIdentify_iff {a b : List UInt8} (hpaths : ReturnsObjectPaths tryFrom)
    (ha : validUnitName a = true) (hb : validUnitName b = true) :
    PathsIdentify tryFrom a b ↔ reading a ≠ reading b := by
  constructor
  · intro h heq
    exact h.distinct ((escapeUnitName_eq_iff a b).mpr heq)
  intro h
  have hds : escapeUnitName a ≠ escapeUnitName b :=
    fun heq => h ((escapeUnitName_eq_iff a b).mp heq)
  exact
    { components := ⟨isComponent_escapeUnitName ha, isComponent_escapeUnitName hb⟩
      distinct := hds
      noAlias := fun id =>
        ⟨escapeUnitName_ne_invocation ha id, escapeUnitName_ne_invocation hb id⟩
      published := fun ns ns' =>
        ⟨_, _, unitPathFor_eq ns hpaths ha, unitPathFor_eq ns' hpaths hb, path_ne_of_ne hds ns ns'⟩
      unaliased := fun ns ns' id => ⟨unitPathFor_ne_invocation hpaths ha ns ns' id,
        unitPathFor_ne_invocation hpaths hb ns ns' id⟩ }

theorem pathsIdentify_services :
    PathsIdentify some (ascii "a-b.service") (ascii "a_b.service") :=
  (pathsIdentify_iff (fun _ _ _ => rfl) (by decide) (by decide)).mpr (by decide)

/-- `a-b.service` and `a_2db.service` are two units at one object path. -/
theorem unitPathFor_collision :
    validUnitName (ascii "a-b.service") = true ∧ validUnitName (ascii "a_2db.service") = true ∧
      ascii "a-b.service" ≠ ascii "a_2db.service" ∧
      escapeUnitName (ascii "a-b.service") = escapeUnitName (ascii "a_2db.service") ∧
      ∀ tryFrom, unitPathFor tryFrom .native (ascii "a-b.service") =
        unitPathFor tryFrom .native (ascii "a_2db.service") := by
  have hsame : escapeUnitName (ascii "a-b.service") = escapeUnitName (ascii "a_2db.service") := by
    decide
  refine ⟨by decide, by decide, by decide, hsame, fun tryFrom => ?_⟩
  rw [unitPathFor, unitPathFor, hsame]

end Rustd.Dbus
