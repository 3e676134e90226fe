import Rustd.Base.Path

/-!
# Paths as unit names

`src/unit/loader.rs`: mount and swap units are named by the path they stand for. The path is
simplified, its slashes become dashes, and every byte that a unit name does not take becomes a
hexadecimal escape. The stem of the name is decoded to the simplified path, which is therefore the
same for all paths with that stem (`path_stem_round_trip`).
-/

namespace Rustd.Unit

open Base List Option

variable (components : List Name) (byte : UInt8) (stem : List Char) (component : Name)

/-- The components that are kept of a path. -/
def pushComponent : List Name :=
  if component = [] ∨ component = ['.'] then components
  else if component = dotDot then components.dropLast
  else components ++ [component]

def pathText : List Char := '/' :: ['/'].intercalate components

/-- `simplify_absolute_path` of `src/unit/loader.rs:753`. -/
def simplifyAbsolutePath (path : List Char) : Option (List Char) :=
  if path.head? ≠ some '/' then none
  else some (pathText ((path.splitOn '/').foldl pushComponent []))

/-- Part of `valid_unit_byte`, `src/bin/rustd-escape.rs:216`. -/
def plainLetter (c : Char) : Bool := c.isAlphanum || c == ':' || c == '_' || c == '.'

/-- A byte of a path in a unit name. The escape of a dash, which the source writes out, is the one
that every other byte gets. -/
def escapeByte : List Char :=
  let c := Char.ofNat byte.toNat
  if c = '/' then ['-']
  else if plainLetter c then [c]
  else ['\\', 'x', Nat.digitChar (byte.toNat / 16), Nat.digitChar (byte.toNat % 16)]

/-- `escape_path_for_unit` of `src/unit/loader.rs:822`. -/
def escapePathForUnit (path suffix : List Char) : Except String (List Char) :=
  match simplifyAbsolutePath path with
  | none => .error s!"unit path '{String.ofList path}' is not absolute"
  | some path =>
    if path = ['/'] then .ok ('-' :: suffix)
    else .ok (((utf8 path).drop 1).flatMap escapeByte ++ suffix)

/-- `char::to_digit(16)`. -/
def toDigit : Option Nat :=
  let c := Char.ofNat byte.toNat
  if c.isDigit then some (byte.toNat - 48)
  else if 'a' ≤ c ∧ c ≤ 'f' then some (byte.toNat - 87)
  else if 'A' ≤ c ∧ c ≤ 'F' then some (byte.toNat - 55)
  else none

/-- The loop of `decode_unit_path_stem`. Anything that starts as an escape and is none is an
error. -/
def decodeBytes : List UInt8 → Option (List UInt8)
  | byte :: x :: high :: low :: rest =>
    if byte = '\\'.toUInt8 then
      if x ≠ 'x'.toUInt8 then none
      else
        match toDigit high, toDigit low with
        | some high, some low => (decodeBytes rest).map ((16 * high + low).toUInt8 :: ·)
        | _, _ => none
    else (decodeBytes (x :: high :: low :: rest)).map
      ((if byte = '-'.toUInt8 then '/'.toUInt8 else byte) :: ·)
  | byte :: rest =>
    if byte = '\\'.toUInt8 then none
    else (decodeBytes rest).map ((if byte = '-'.toUInt8 then '/'.toUInt8 else byte) :: ·)
  | [] => some []

def fromUtf8 (bytes : List UInt8) : Option (List Char) :=
  bytes.toByteArray.utf8Decode?.map Array.toList

/-- `decode_unit_path_stem` of `src/unit/loader.rs:774`. -/
def decodeUnitPathStem : Except String (List Char) :=
  if stem = [] then .error "unit path stem is empty"
  else if stem = ['-'] then .ok ['/']
  else
    match decodeBytes (utf8 stem) with
    | none => .error s!"invalid unit-name escape in '{String.ofList stem}'"
    | some bytes =>
      match fromUtf8 ('/'.toUInt8 :: bytes) with
      | some path => .ok path
      | none => .error "unit path is not UTF-8"

/-- `path_from_unit_name` of `src/unit/loader.rs:815`. -/
def pathFromUnitName (name suffix : List Char) : Except String (List Char) :=
  if suffix <:+ name then decodeUnitPathStem (name.take (name.length - suffix.length))
  else .error s!"unit '{String.ofList name}' does not end in '{String.ofList suffix}'"

def stemByte : Bool := plainLetter (Char.ofNat byte.toNat) || byte == '-'.toUInt8

/-- The loop of `valid_escaped_unit_stem`. An escape has four bytes. -/
def validBytes : List UInt8 → Bool
  | byte :: x :: high :: low :: rest =>
    if byte = '\\'.toUInt8 then
      x == 'x'.toUInt8 && (toDigit high).isSome && (toDigit low).isSome && validBytes rest
    else stemByte byte && validBytes (x :: high :: low :: rest)
  | short => short.all stemByte

/-- `valid_escaped_unit_stem` of `src/unit/loader.rs:987`. -/
def validEscapedUnitStem : Bool := validBytes (utf8 stem)

/-! ### Simplified paths -/

def Kept : Prop :=
  component ≠ [] ∧ component ≠ ['.'] ∧ component ≠ dotDot ∧ '/' ∉ component

section

variable {components : List Name} {path : List Char}

private theorem kept_foldl {components : List Name} (p : List Name) (h : ∀ c ∈ components, Kept c)
    (hp : ∀ pi ∈ p, '/' ∉ pi) : ∀ c ∈ p.foldl pushComponent components, Kept c := by
  induction p generalizing components with
  | nil => exact h
  | cons pi p ih =>
    refine ih ?_ fun v hother => hp v (mem_cons_of_mem _ hother)
    have hpc := hp pi mem_cons_self
    intro c hc
    unfold pushComponent at hc
    split at hc
    · exact h c hc
    rename_i hpl
    split at hc
    · exact h c (dropLast_subset _ hc)
    rename_i hdt
    rcases mem_append.mp hc with hc | hc
    · exact h c hc
    · obtain rfl := mem_singleton.mp hc
      exact ⟨fun hnil => hpl (.inl hnil), fun hdot => hpl (.inr hdot), hdt, hpc⟩

private theorem foldl_pushComponent (h : ∀ c ∈ components, Kept c) (i : List Name) :
    components.foldl pushComponent i = i ++ components := by
  induction components generalizing i with
  | nil => simp
  | cons c components ih =>
    obtain ⟨hne, hdot, hdt, -⟩ := h c mem_cons_self
    rw [foldl_cons, ih fun v hother => h v (mem_cons_of_mem _ hother),
      pushComponent, if_neg (not_or.mpr ⟨hne, hdot⟩), if_neg hdt, append_assoc,
      singleton_append]

private theorem simplifyAbsolutePath_pathText (h : ∀ c ∈ components, Kept c) :
    simplifyAbsolutePath (pathText components) = some (pathText components) := by
  have hfol : ((pathText components).splitOn '/').foldl pushComponent [] = components := by
    by_cases hnil : components = []
    · rw [hnil]
      rfl
    have htx : pathText components = [] ++ '/' :: ['/'].intercalate components := rfl
    have hsl : (pathText components).splitOn '/' = [] :: components := by
      rw [htx, splitOn_append_cons_self, splitOn_intercalate '/' (fun c hc => (h c hc).2.2.2) hnil]
      rfl
    rw [hsl, foldl_cons]
    exact foldl_pushComponent h []
  rw [simplifyAbsolutePath, if_neg (by simp [pathText]), hfol]

theorem simplify_spec {simple : List Char} (h : simplifyAbsolutePath path = some simple) :
    ∃ components, (∀ c ∈ components, Kept c) ∧ simple = pathText components := by
  unfold simplifyAbsolutePath at h
  split at h
  · cases h
  have hkp := kept_foldl (path.splitOn '/') (fun _ hc => absurd hc not_mem_nil)
    fun p hpc => not_mem_of_mem_splitOn hpc
  exact ⟨_, hkp, (some.inj h).symm⟩

end

/-! ### Escaped bytes -/

section

variable {byte : UInt8} {text rest : List UInt8}

theorem toNat_ofNat_byte (byte : UInt8) : (Char.ofNat byte.toNat).toNat = byte.toNat := by
  have hlt : byte.toNat < 256 := byte.toNat_lt
  have hvl : byte.toNat.isValidChar := .inl (by omega)
  simp [Char.ofNat, hvl, Char.ofNatAux, Char.toNat]

theorem utf8EncodeChar_byte (h : byte.toNat < 128) :
    String.utf8EncodeChar (Char.ofNat byte.toNat) = [byte] := by
  have hval : (Char.ofNat byte.toNat).val.toNat = byte.toNat := toNat_ofNat_byte byte
  rw [String.utf8EncodeChar_eq_singleton (Char.utf8Size_eq_one_iff.mpr ?_)]
  · refine congrArg ([·]) (UInt8.toNat_inj.mp ?_)
    rw [UInt32.toNat_toUInt8, hval]
    omega
  · rw [UInt32.le_iff_toNat_le, hval]
    exact Nat.lt_succ_iff.mp h

theorem lt_of_plainLetter (h : plainLetter c = true) : c.toNat < 128 := by
  simp only [plainLetter, Bool.or_eq_true, beq_iff_eq] at h
  rcases h with ((h | rfl) | rfl) | rfl
  · simp [Char.isAlphanum, Char.isAlpha, Char.isUpper, Char.isLower, Char.isDigit,
      UInt32.le_iff_toNat_le] at h
    omega
  all_goals decide

private theorem digits_byte : ∀ n < 16,
    String.utf8EncodeChar (Nat.digitChar n) = [(Nat.digitChar n).toUInt8] ∧
      toDigit (Nat.digitChar n).toUInt8 = some n := by
  decide

private theorem utf8_escapeByte (byte : UInt8) :
    (∃ c, utf8 (escapeByte byte) = [c] ∧ c ≠ '\\'.toUInt8 ∧
      (if c = '-'.toUInt8 then '/'.toUInt8 else c) = byte ∧ stemByte c = true) ∨
    ∃ high low, utf8 (escapeByte byte) = ['\\'.toUInt8, 'x'.toUInt8, high, low] ∧
      toDigit high = some (byte.toNat / 16) ∧ toDigit low = some (byte.toNat % 16) := by
  have hlt : byte.toNat < 256 := byte.toNat_lt
  unfold escapeByte
  dsimp only
  split
  · next hsls =>
    refine .inl ⟨'-'.toUInt8, rfl, by decide, ?_, by decide⟩
    have hnat := toNat_ofNat_byte byte
    rw [hsls] at hnat
    exact UInt8.toNat_inj.mp hnat
  · next hsls =>
    split
    · next hpl =>
      have hne : ∀ c : UInt8, plainLetter (Char.ofNat c.toNat) = false → byte ≠ c := by
        rintro c hc rfl
        cases hpl.symm.trans hc
      refine .inl ⟨byte, ?_, hne _ (by decide), if_neg (hne _ (by decide)),
        by rw [stemByte, hpl]; rfl⟩
      rw [utf8, flatMap_singleton,
        utf8EncodeChar_byte (toNat_ofNat_byte byte ▸ lt_of_plainLetter hpl)]
    · obtain ⟨hhg, hhg'⟩ := digits_byte (byte.toNat / 16) (by omega)
      obtain ⟨hlow, hlow'⟩ := digits_byte (byte.toNat % 16) (by omega)
      refine .inr ⟨_, _, ?_, hhg', hlow'⟩
      simp only [utf8, flatMap_cons, flatMap_nil, hhg, hlow]
      rfl

private theorem decodeBytes_cons (h : byte ≠ '\\'.toUInt8) (rest : List UInt8) :
    decodeBytes (byte :: rest) =
      (decodeBytes rest).map ((if byte = '-'.toUInt8 then '/'.toUInt8 else byte) :: ·) := by
  match rest with
  | [] | [_] | [_, _] | _ :: _ :: _ :: _ => simp only [decodeBytes, if_neg h]

theorem validBytes_cons (h : byte ≠ '\\'.toUInt8) (rest : List UInt8) :
    validBytes (byte :: rest) = (stemByte byte && validBytes rest) := by
  match rest with
  | [] | [_] | [_, _] => simp [validBytes]
  | _ :: _ :: _ :: _ => simp only [validBytes, if_neg h]

theorem read_escaped (bs : List UInt8) :
    decodeBytes (utf8 (bs.flatMap escapeByte)) = some bs ∧
      validBytes (utf8 (bs.flatMap escapeByte)) = true := by
  induction bs with
  | nil => exact ⟨rfl, rfl⟩
  | cons byte bs ih =>
    obtain ⟨hde, hvl⟩ := ih
    have hutf8 : utf8 ((byte :: bs).flatMap escapeByte) =
        utf8 (escapeByte byte) ++ utf8 (bs.flatMap escapeByte) := by
      rw [flatMap_cons, utf8, flatMap_append]
      rfl
    rw [hutf8]
    rcases utf8_escapeByte byte with ⟨c, hc, hne, hrea, hpl⟩ | ⟨high, low, hc, hhg, hlow⟩
    · rw [hc, singleton_append, decodeBytes_cons hne, validBytes_cons hne, hrea, hpl, hde, hvl]
      exact ⟨rfl, rfl⟩
    have hby : (16 * (byte.toNat / 16) + byte.toNat % 16).toUInt8 = byte := by
      rw [Nat.div_add_mod]
      exact UInt8.ofNat_toNat
    simp only [hc, cons_append, nil_append, decodeBytes, validBytes, if_true, ne_eq,
      not_true, if_false, hhg, hlow, hde, hvl, hby, map_some, beq_self_eq_true,
      isSome_some, Bool.and_self, and_self]

end

theorem fromUtf8_utf8 (text : List Char) : fromUtf8 (utf8 text) = some text := by
  have hde : (utf8 text).toByteArray.utf8Decode? = some text.toArray := utf8Decode?_utf8Encode
  rw [fromUtf8, hde, map_some]

theorem utf8_injective {text text' : List Char} (h : utf8 text = utf8 text') : text = text' :=
  some.inj ((fromUtf8_utf8 text).symm.trans (h ▸ fromUtf8_utf8 text'))

variable {path simple : List Char}

theorem simplify_idempotent (h : simplifyAbsolutePath path = some simple) :
    simplifyAbsolutePath simple = some simple := by
  obtain ⟨components, hkp, rfl⟩ := simplify_spec h
  exact simplifyAbsolutePath_pathText hkp

theorem escapePathForUnit_of_ne {rest : List Char}
    (h : simplifyAbsolutePath path = some ('/' :: rest)) (hne : rest ≠ []) (s : List Char) :
    escapePathForUnit path s = .ok ((utf8 rest).flatMap escapeByte ++ s) := by
  simp only [escapePathForUnit, h]
  exact if_neg fun hro => hne (List.cons.inj hro).2

theorem decode_stem (h : simplifyAbsolutePath path = some simple) (s : List Char) :
    ∃ stem, escapePathForUnit path s = .ok (stem ++ s) ∧
      decodeUnitPathStem stem = .ok simple ∧ validEscapedUnitStem stem = true := by
  obtain ⟨rest, rfl⟩ : ∃ rest, simple = '/' :: rest := ⟨_, (simplify_spec h).choose_spec.2⟩
  by_cases hne : rest = []
  · subst hne
    exact ⟨['-'], by simp only [escapePathForUnit, h, if_true]; rfl, rfl, rfl⟩
  obtain ⟨hde, hvl⟩ := read_escaped (utf8 rest)
  refine ⟨_, escapePathForUnit_of_ne h hne s, ?_, hvl⟩
  -- neither the empty stem nor that of the root is decoded to these bytes
  have hstm : ∀ stem bs, decodeBytes (utf8 stem) = some (utf8 bs) → rest ≠ bs →
      (utf8 rest).flatMap escapeByte ≠ stem := by
    rintro stem bs hstm hbt rfl
    exact hbt (utf8_injective (some.inj (hde.symm.trans hstm)))
  have hsls : rest ≠ ['/'] := by
    rintro rfl
    exact absurd (simplify_idempotent h) (by decide)
  have hbt : fromUtf8 ('/'.toUInt8 :: utf8 rest) = some ('/' :: rest) := fromUtf8_utf8 ('/' :: rest)
  simp only [decodeUnitPathStem, if_neg (hstm [] [] rfl hne),
    if_neg (hstm ['-'] ['/'] rfl hsls), hde, hbt]

/-- What the stem of a path's unit name is: it has the grammar of stems and is decoded to the
simplified path, simplification has no effect the second time, and every path with the same stem has
the same simplified form. -/
structure StemOf (path suffix simple stem : List Char) : Prop where
  simplified : simplifyAbsolutePath path = some simple
  idempotent : simplifyAbsolutePath simple = some simple
  escaped : escapePathForUnit path suffix = .ok (stem ++ suffix)
  decoded : decodeUnitPathStem stem = .ok simple
  named : pathFromUnitName (stem ++ suffix) suffix = .ok simple
  valid : validEscapedUnitStem stem = true
  injective : ∀ other, escapePathForUnit other suffix = .ok (stem ++ suffix) →
    simplifyAbsolutePath other = some simple

/-- Escaping is invertible for every absolute path. -/
theorem path_stem_round_trip {path : List Char} (h : path.head? = some '/') (suffix : List Char) :
    ∃ simple stem, StemOf path suffix simple stem := by
  obtain ⟨simple, hsmp⟩ : ∃ simple, simplifyAbsolutePath path = some simple :=
    ⟨_, if_neg (not_not.mpr h)⟩
  obtain ⟨stem, hstm, hde, hvl⟩ := decode_stem hsmp suffix
  refine ⟨simple, stem, hsmp, simplify_idempotent hsmp, hstm, hde, ?_, hvl, ?_⟩
  · rw [pathFromUnitName, if_pos (suffix_append _ _), length_append,
      Nat.add_sub_cancel, take_left', hde]
    rfl
  intro v hother
  cases hsmp' : simplifyAbsolutePath v with
  | none =>
    rw [escapePathForUnit, hsmp'] at hother
    cases hother
  | some si' =>
    obtain ⟨s', hstm', hde', -⟩ := decode_stem hsmp' suffix
    have heq : stem ++ suffix = s' ++ suffix := Except.ok.inj (hother.symm.trans hstm')
    rw [← append_cancel_right heq] at hde'
    rw [Except.ok.inj (hde'.symm.trans hde)]

theorem path_stem_round_trip_dots :
    ∃ simple stem, StemOf "/a/../b-c//".toList ".mount".toList simple stem :=
  path_stem_round_trip rfl _

end Rustd.Unit
