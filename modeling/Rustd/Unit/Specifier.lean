import Rustd.Unit.PathStem

/-!
# Specifiers

`src/unit/specifier.rs`: a percent sign and a letter stand for a text of the unit or of the machine.
`%I` and `%f` stand for the unescaped instance and the path it stands for. The specifiers only turn
dashes into slashes and decode no escapes, so that they give back the paths without bytes that need
one, except the root.
-/

namespace Rustd.Unit

open Base List

/-- Paths are given as they are displayed. -/
structure SpecifierContext where
  unitName : List Char
  stem : List Char
  inst : List Char
  runtimeDir : List Char
  stateDir : List Char
  cacheDir : List Char
  logsDir : List Char
  configDir : List Char
  machineId : List Char
  bootId : List Char
  hostname : List Char
  kernelRelease : List Char
  userName : List Char
  uid : Nat
  groupName : List Char
  gid : Nat
  homeDir : List Char
  shell : List Char
  deriving Inhabited

/-- `unescape_name` of `src/unit/specifier.rs:174`. -/
def unescapeName (name : List Char) : List Char := name.map fun c => if c = '-' then '/' else c

/-- The text that a letter after a percent sign stands for. -/
def SpecifierContext.replacement (ctx : SpecifierContext) : Char → Option (List Char)
  | 'n' => some ctx.unitName
  | 'N' => some (unescapeName ctx.unitName)
  | 'p' => some ctx.stem
  | 'P' => some (unescapeName ctx.stem)
  | 'i' => some ctx.inst
  | 'I' => some (unescapeName ctx.inst)
  | 'f' => some ('/' :: unescapeName (if ctx.inst = [] then ctx.stem else ctx.inst))
  | 't' => some ctx.runtimeDir
  | 'S' => some ctx.stateDir
  | 'C' => some ctx.cacheDir
  | 'L' => some ctx.logsDir
  | 'E' => some ctx.configDir
  | 'm' => some ctx.machineId
  | 'b' => some ctx.bootId
  | 'H' => some ctx.hostname
  | 'v' => some ctx.kernelRelease
  | 'u' => some ctx.userName
  | 'U' => some (decimal ctx.uid)
  | 'g' => some ctx.groupName
  | 'G' => some (decimal ctx.gid)
  | 'h' => some ctx.homeDir
  | 's' => some ctx.shell
  | '%' => some ['%']
  | _ => none

/-- `expand` of `src/unit/specifier.rs:182`. -/
def SpecifierContext.expand (ctx : SpecifierContext) : List Char → List Char
  | [] => []
  | [c] => [c]
  | c :: d :: rest =>
    if c ≠ '%' then c :: expand ctx (d :: rest)
    else
      match ctx.replacement d with
      | some text => text ++ expand ctx rest
      | none => '%' :: expand ctx (d :: rest)

def plainByte (byte : UInt8) : Prop :=
  Char.ofNat byte.toNat = '/' ∨ plainLetter (Char.ofNat byte.toNat) = true

section

variable {byte : UInt8} {bytes : List UInt8} {path rest : List Char}

private theorem unescapeName_of_plain (h : plainByte byte) :
    unescapeName (escapeByte byte) = [Char.ofNat byte.toNat] := by
  by_cases hsls : Char.ofNat byte.toNat = '/'
  · simp [escapeByte, unescapeName, hsls]
  have hpl := h.resolve_left hsls
  have hda : Char.ofNat byte.toNat ≠ '-' := by
    intro heq
    rw [heq] at hpl
    cases hpl
  simp [escapeByte, unescapeName, hsls, hpl, hda]

private theorem length_escapeByte (byte : UInt8) :
    1 ≤ (escapeByte byte).length ∧ (¬plainByte byte → 1 < (escapeByte byte).length) := by
  unfold escapeByte plainByte
  dsimp only
  split_ifs <;> simp_all

variable (text : List Char)

private theorem length_le_length_utf8 : text.length ≤ (utf8 text).length := by
  induction text with
  | nil => exact le_rfl
  | cons c text ih =>
    have hpos := c.utf8Size_pos
    have hln : (utf8 (c :: text)).length = c.utf8Size + (utf8 text).length := by
      rw [utf8, flatMap_cons, length_append, String.length_utf8EncodeChar]
      rfl
    rw [length_cons, hln]
    omega

private theorem length_flatMap_escapeByte (bytes : List UInt8) :
    bytes.length ≤ (bytes.flatMap escapeByte).length ∧
      ((∃ byte ∈ bytes, ¬plainByte byte) → bytes.length < (bytes.flatMap escapeByte).length) := by
  induction bytes with
  | nil => simp
  | cons byte bytes ih =>
    obtain ⟨hone, hmor⟩ := length_escapeByte byte
    rw [flatMap_cons, length_append, length_cons]
    refine ⟨by omega, ?_⟩
    rintro ⟨v, hother, hpl⟩
    rcases mem_cons.mp hother with rfl | hother
    · have := hmor hpl
      omega
    · have := ih.2 ⟨v, hother, hpl⟩
      omega

private theorem utf8_unescapeName (h : ∀ byte ∈ bytes, plainByte byte) :
    utf8 (unescapeName (bytes.flatMap escapeByte)) = bytes := by
  induction bytes with
  | nil => rfl
  | cons byte bytes ih =>
    have hby : byte.toNat < 128 := by
      rcases h byte mem_cons_self with hsls | hpl
      · rw [← toNat_ofNat_byte, hsls]
        decide
      · exact toNat_ofNat_byte byte ▸ lt_of_plainLetter hpl
    have hfr := unescapeName_of_plain (h byte mem_cons_self)
    rw [flatMap_cons, unescapeName, map_append, ← unescapeName, ← unescapeName, hfr,
      singleton_append, utf8, flatMap_cons, utf8EncodeChar_byte hby, ← utf8,
      ih fun v hother => h v (mem_cons_of_mem _ hother), singleton_append]

/-- Turning dashes into slashes undoes the escaping of a text that needs no escape, and of no
other. -/
theorem unescapeName_eq_iff :
    unescapeName ((utf8 text).flatMap escapeByte) = text ↔ ∀ byte ∈ utf8 text, plainByte byte := by
  constructor
  · intro heq byte hby
    by_contra hpl
    have hln := congrArg List.length heq
    rw [unescapeName, length_map] at hln
    have hlt := (length_flatMap_escapeByte (utf8 text)).2 ⟨byte, hby, hpl⟩
    have hle := length_le_length_utf8 text
    omega
  · exact fun h => utf8_injective (utf8_unescapeName h)

end

/-- For a simplified path and the unit whose instance is its escaped form, `%f` stands for the path
and `%I` for the path without its first slash exactly if the path is not the root and no byte of it
is escaped. -/
theorem expand_instance_path_iff (path stem : List Char)
    (hsimple : simplifyAbsolutePath path = some path) (hstem : escapePathForUnit path [] = .ok stem)
    (ctx : SpecifierContext) :
    ({ ctx with inst := stem }.expand "%f".toList = path ∧
      { ctx with inst := stem }.expand "%I".toList = path.tail) ↔
    path ≠ ['/'] ∧ ∀ byte ∈ utf8 path, plainByte byte := by
  obtain ⟨rest, rfl⟩ : ∃ rest, path = '/' :: rest := ⟨_, (simplify_spec hsimple).choose_spec.2⟩
  have hf : { ctx with inst := stem }.expand "%f".toList =
      '/' :: unescapeName (if stem = [] then ctx.stem else stem) := append_nil _
  have hI : { ctx with inst := stem }.expand "%I".toList = unescapeName stem := append_nil _
  rw [hf, hI]
  by_cases hrest : rest = []
  · subst hrest
    obtain rfl : ['-'] = stem := by simpa [escapePathForUnit, hsimple] using hstem
    simp [unescapeName]
  have hes := escapePathForUnit_of_ne hsimple hrest []
  rw [append_nil] at hes
  obtain rfl : (utf8 rest).flatMap escapeByte = stem := Except.ok.inj (hes.symm.trans hstem)
  have hne : (utf8 rest).flatMap escapeByte ≠ [] := by
    intro hnil
    have hln := (length_flatMap_escapeByte (utf8 rest)).1
    have hle := length_le_length_utf8 rest
    rw [hnil, length_nil] at hln
    exact hrest (eq_nil_of_length_eq_zero (by omega))
  have hsls : plainByte '/'.toUInt8 := .inl rfl
  have hutf8 : utf8 ('/' :: rest) = '/'.toUInt8 :: utf8 rest := rfl
  simp only [if_neg hne, List.cons.injEq, true_and, tail_cons, and_self,
    unescapeName_eq_iff, ne_eq, hrest, not_false_eq_true, hutf8, forall_mem_cons, hsls]

theorem expand_instance_path_plain :
    ({ (default : SpecifierContext) with inst := "srv-a".toList }.expand "%f".toList =
        "/srv/a".toList ∧
      { (default : SpecifierContext) with inst := "srv-a".toList }.expand "%I".toList =
        "/srv/a".toList.tail) ↔
    "/srv/a".toList ≠ ['/'] ∧ ∀ byte ∈ utf8 "/srv/a".toList, plainByte byte :=
  expand_instance_path_iff "/srv/a".toList "srv-a".toList (by decide) (by decide) default

/-- The escape of a dash is not decoded. -/
theorem escaped_dash_not_expanded :
    simplifyAbsolutePath "/a-b".toList = some "/a-b".toList ∧
      escapePathForUnit "/a-b".toList [] = .ok "a\\x2db".toList ∧
      { (default : SpecifierContext) with inst := "a\\x2db".toList }.expand "%f".toList =
        "/a\\x2db".toList := by
  decide

end Rustd.Unit
