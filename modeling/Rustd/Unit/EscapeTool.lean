import Rustd.Unit.PathStem

/-!
# The escape tool

`src/bin/rustd-escape.rs`: the names that `rustd-escape` prints. They are read back to what was
escaped. The tool escapes a dot at the start of a name and the loader does not.
-/

namespace Rustd.Unit.EscapeTool

open Base List

/-- `push_hex_escape` of `src/bin/rustd-escape.rs:238`. -/
def pushHexEscape (byte : UInt8) : List Char :=
  ['\\', 'x', Nat.digitChar (byte.toNat / 16), Nat.digitChar (byte.toNat % 16)]

/-- `unit_name_escape`: bytes other than a dot at the start are escaped as by the loader. -/
def unitNameEscape : List Char → List Char
  | '.' :: rest => pushHexEscape '.'.toUInt8 ++ (utf8 rest).flatMap escapeByte
  | value => (utf8 value).flatMap escapeByte

def keptParts (path : List Char) : List Name :=
  (path.splitOn '/').filter fun part => part ≠ [] ∧ part ≠ ['.']

/-- `simplify_path` of `src/bin/rustd-escape.rs:282`. -/
def simplifyPath (path : List Char) : List Char :=
  if keptParts path = [] then if path.head? = some '/' then ['/'] else ['.']
  else if path.head? = some '/' then pathText (keptParts path)
  else ['/'].intercalate (keptParts path)

/-- `path_escape` of `src/bin/rustd-escape.rs:305`. -/
def pathEscape (value : List Char) : Except String (List Char) :=
  if '\x00' ∈ value then
    .error s!"Input '{String.ofList value}' is not a valid file system path, failed to escape."
  else if dotDot ∈ value.splitOn '/' then
    .error s!"Input '{String.ofList value}' is not a normalized file system path, failed to escape."
  else if value = ['.'] then
    .error "Input '.' is not an absolute file system path, failed to escape."
  else if simplifyPath value = ['/'] ∨ simplifyPath value = ['.'] then .ok ['-']
  else .ok (unitNameEscape ((simplifyPath value).dropWhile (· == '/')))

def invalidArgument : String := "Failed to unescape string: Invalid argument"

/-- `unit_name_unescape`: its loop takes and refuses what that of the loader does. -/
def unitNameUnescape (value : List Char) : Except String (List Char) :=
  match (decodeBytes (utf8 value)).bind fun bytes => fromUtf8 (bytes.takeWhile (· ≠ 0)) with
  | some text => .ok text
  | none => .error invalidArgument

/-- `path_unescape` of `src/bin/rustd-escape.rs:332`. -/
def pathUnescape (value : List Char) : Except String (List Char) :=
  if value = [] then .error invalidArgument
  else if value = ['-'] then .ok ['/']
  else
    (unitNameUnescape value).bind fun decoded =>
      if decoded.head? = some '/' ∨ decoded.getLast? = some '/' ∨
          dotDot ∈ ('/' :: decoded).splitOn '/' then .error invalidArgument
      else .ok ('/' :: decoded)

/-- Part of `has_valid_suffix`, `src/bin/rustd-escape.rs:385`. -/
def unitTypes : List (List Char) :=
  ["service", "mount", "swap", "socket", "target", "device", "automount", "timer", "path", "slice",
    "scope"].map String.toList

/-- `has_valid_suffix` of `src/bin/rustd-escape.rs:385`. -/
def hasValidSuffix (value : List Char) : Bool :=
  (rsplitOnce '.' value).any fun parts => parts.2 ∈ unitTypes

def stemLetter (c : Char) : Bool := plainLetter c || c == '-' || c == '\\'

/-- `is_valid_unit_name`: a letter that is not ASCII has no valid byte. -/
def isValidUnitName (value : List Char) : Bool :=
  (utf8 value).length < 256 && hasValidSuffix value &&
    (rsplitOnce '.' value).any fun (stem, _) =>
      stem ≠ [] && stem.head? ≠ some '@' && stem.count '@' ≤ 1 &&
        stem.all fun c => c == '@' || stemLetter c

/-- `unit_name_mangle` of `src/bin/rustd-escape.rs:350`. -/
def unitNameMangle (value : List Char) : Except String (List Char) :=
  if value = [] then .error "Invalid argument"
  else if isValidUnitName value then .ok value
  else if value.head? = some '/' then
    let simplified := simplifyPath value
    let suffix :=
      if simplified = "/dev".toList ∨ "/dev/".toList <+: simplified then "device" else "mount"
    (pathEscape simplified).map (· ++ '.' :: suffix.toList)
  else
    let output := (utf8 value).flatMap fun byte =>
      if byte = '-'.toUInt8 ∨ byte = '@'.toUInt8 then [Char.ofNat byte.toNat] else escapeByte byte
    let output := if hasValidSuffix output then output else output ++ ".service".toList
    if isValidUnitName output then .ok output else .error "Invalid argument"

def automountSuffix : List Char := ".automount".toList

/-- The name of an automount unit and the path it stands for. -/
def finalizeAutomount (unitName configured : List Char) : Except String (List Char) :=
  if ¬automountSuffix <:+ unitName then
    .error s!"invalid automount unit name '{String.ofList unitName}'"
  else if '@' ∈ unitName.take (unitName.length - automountSuffix.length) then
    .error s!"automount units cannot be templated: '{String.ofList unitName}'"
  else do
    let derived ← pathFromUnitName unitName automountSuffix
    let path ← if configured = [] then pure derived else
      match simplifyAbsolutePath configured with
      | some path => pure path
      | none => .error s!"Automount.Where= for '{String.ofList unitName}' is not an absolute path"
    if path = ['/'] then
      .error s!"automount unit '{String.ofList unitName}' cannot manage the root directory"
    let expected ← escapePathForUnit path automountSuffix
    if unitName ≠ expected then
      .error <| s!"Automount.Where= '{String.ofList path}' does not match unit name " ++
        s!"'{String.ofList unitName}' (expected '{String.ofList expected}')"
    pure path

/-! ### Stems -/

section

variable {path rest : List Char}

private theorem foldl_pushComponent_filter {ps : List Name} (h : dotDot ∉ ps) (i : List Name) :
    ps.foldl pushComponent i = i ++ ps.filter fun pa => pa ≠ [] ∧ pa ≠ ['.'] := by
  induction ps generalizing i with
  | nil => simp
  | cons p ps ih =>
    obtain ⟨hp, h⟩ := not_or.mp (mem_cons.not.mp h)
    rw [foldl_cons, ih h, pushComponent]
    by_cases he : p = [] ∨ p = ['.']
    · rcases he with rfl | rfl <;> simp
    · rw [if_neg he, if_neg (Ne.symm hp)]
      simp_all

private theorem simplify_agrees (habs : path.head? = some '/') (hdd : dotDot ∉ path.splitOn '/') :
    simplifyAbsolutePath path = some (simplifyPath path) ∧
      simplifyPath path = pathText (keptParts path) := by
  have hs : simplifyPath path = pathText (keptParts path) := by
    rw [simplifyPath, if_pos habs, if_pos habs]
    split
    next he => rw [he]; rfl
    next => rfl
  refine ⟨?_, hs⟩
  rw [simplifyAbsolutePath, if_neg (by simp [habs]), foldl_pushComponent_filter hdd, hs]
  rfl

private theorem part_spec (h : p ∈ keptParts path) : p ≠ [] ∧ '/' ∉ p ∧ p ∈ path.splitOn '/' := by
  obtain ⟨hm, hne⟩ := mem_filter.mp h
  exact ⟨(of_decide_eq_true hne).1, not_mem_of_mem_splitOn hm, hm⟩

private theorem head_ne_slash (path : List Char) :
    (['/'].intercalate (keptParts path)).head? ≠ some '/' := by
  rcases hk : keptParts path with - | ⟨p, m⟩
  · simp
  obtain ⟨hne, hs, -⟩ := part_spec (hk ▸ mem_cons_self : p ∈ keptParts path)
  obtain ⟨c, p, rfl⟩ := exists_cons_of_ne_nil hne
  have hc : c ≠ '/' := fun he => hs (by simp [he])
  cases m <;> simpa using hc

private theorem stemLetter_escapeByte (b : UInt8) : ∀ c ∈ escapeByte b, stemLetter c = true := by
  have hd : ∀ n < 16, stemLetter (Nat.digitChar n) = true := by decide
  have hb := b.toNat_lt
  rw [escapeByte]
  split_ifs with hs hp
  · exact forall_mem_singleton.mpr rfl
  · simp [stemLetter, hp]
  · simp only [forall_mem_cons]
    exact ⟨by decide, by decide, hd _ (by omega), hd _ (by omega), by simp⟩

private theorem stemLetter_unitNameEscape (v : List Char) :
    ∀ c ∈ unitNameEscape v, stemLetter c = true := by
  have hf (s : List Char) : ∀ c ∈ (utf8 s).flatMap escapeByte, stemLetter c = true := by
    intro c hc
    obtain ⟨b, -, hc⟩ := mem_flatMap.mp hc
    exact stemLetter_escapeByte b c hc
  rw [unitNameEscape.eq_def]
  split
  · exact forall_mem_append.mpr ⟨all_eq_true.mp (by decide), hf _⟩
  · exact hf _

private theorem pathEscape_spec (habs : path.head? = some '/') (hnul : '\x00' ∉ path)
    (hdd : dotDot ∉ path.splitOn '/') : (simplifyPath path = ['/'] ∧ pathEscape path = .ok ['-']) ∨
      ∃ j, j = ['/'].intercalate (keptParts path) ∧ j ≠ [] ∧
        simplifyPath path = '/' :: j ∧ pathEscape path = .ok (unitNameEscape j) := by
  have hne : path ≠ ['.'] := by rintro rfl; cases habs
  by_cases hro : simplifyPath path = ['/']
  · exact .inl ⟨hro, by simp [pathEscape, hnul, hdd, hne, hro]⟩
  have hs : simplifyPath path = '/' :: ['/'].intercalate (keptParts path) :=
    (simplify_agrees habs hdd).2
  have hjn : ['/'].intercalate (keptParts path) ≠ [] := fun he => hro (by rw [hs, he])
  have hh := head_ne_slash path
  refine .inr ⟨_, rfl, hjn, hs, ?_⟩
  generalize ['/'].intercalate (keptParts path) = j at *
  obtain ⟨c, m, rfl⟩ := exists_cons_of_ne_nil hjn
  have hc : c ≠ '/' := fun he => hh (by rw [he]; rfl)
  simp [pathEscape, hnul, hdd, hne, hs, hc]

private theorem unitNameEscape_plain (h : j.head? ≠ some '.') :
    unitNameEscape j = (utf8 j).flatMap escapeByte := by
  rw [unitNameEscape]
  rintro rest rfl
  exact h rfl

/-- The tool escapes a dot at the start, the loader keeps it. -/
theorem unitNameEscape_hidden (h : j.head? = some '.') :
    unitNameEscape j ≠ (utf8 j).flatMap escapeByte := by
  cases j with
  | nil => cases h
  | cons c rest =>
    obtain rfl := Option.some.inj h
    intro heq
    have hheads := congrArg List.head? heq
    cases hheads

/-- What `finalize_automount` does with the name of a path that is not the root. -/
theorem finalizeAutomount_eq {stem expected : List Char} (habs : path.head? = some '/')
    (hdd : dotDot ∉ path.splitOn '/') (hroot : simplifyPath path ≠ ['/'])
    (hletters : ∀ c ∈ stem, stemLetter c = true)
    (hexpected : escapePathForUnit path automountSuffix = .ok (expected ++ automountSuffix)) :
    finalizeAutomount (stem ++ automountSuffix) path = .ok (simplifyPath path) ↔
      stem = expected := by
  have hsim := (simplify_agrees habs hdd).1
  obtain ⟨stem', hst, hde, -⟩ := decode_stem hsim automountSuffix
  obtain rfl := append_cancel_right (Except.ok.inj (hexpected.symm.trans hst))
  set name := stem ++ automountSuffix with hname
  have htake : name.take (name.length - automountSuffix.length) = stem := by
    rw [hname, length_append, Nat.add_sub_cancel, take_left']
    rfl
  have hat : '@' ∉ name.take (name.length - automountSuffix.length) := by
    rw [htake]
    exact fun hm => absurd (hletters _ hm) (by decide)
  have hsuffix : automountSuffix <:+ name := suffix_append _ _
  have hnil : path ≠ [] := by
    rintro rfl
    cases habs
  have hagain : escapePathForUnit (simplifyPath path) automountSuffix =
      .ok (expected ++ automountSuffix) := by
    rw [← hexpected, escapePathForUnit, escapePathForUnit, simplify_idempotent hsim, hsim]
  have hnames : name = expected ++ automountSuffix ↔ stem = expected := by
    rw [hname, append_left_inj]
  rw [finalizeAutomount, if_neg (not_not.mpr hsuffix), if_neg hat]
  constructor
  · intro hok
    by_contra hne
    cases hderived : pathFromUnitName name automountSuffix with
    | error message => simp [hderived, bind, Except.bind] at hok
    | ok derived =>
      simp [hderived, hnil, hsim, hroot, hagain, hnames, hne, bind, Except.bind, pure,
        Except.pure] at hok
  · rintro rfl
    have hderived : pathFromUnitName name automountSuffix = .ok (simplifyPath path) := by
      rw [pathFromUnitName, if_pos hsuffix, htake, hde]
    simp [hderived, hnil, hsim, hroot, hagain, ← hname, bind, Except.bind, pure, Except.pure]

/-- The tool and the loader make the same name of a path exactly if it does not begin with a hidden
file. The loader takes an automount unit of the tool's name for the path under the same condition,
except for the root. -/
theorem tool_stem_accepted (habs : path.head? = some '/') (hnul : '\x00' ∉ path)
    (hdd : dotDot ∉ path.splitOn '/') :
    ∃ stem, pathEscape path = .ok stem ∧
      ((∀ suffix, escapePathForUnit path suffix = .ok (stem ++ suffix)) ↔
        (simplifyPath path)[1]? ≠ some '.') ∧
      (finalizeAutomount (stem ++ automountSuffix) path = .ok (simplifyPath path) ↔
        (simplifyPath path)[1]? ≠ some '.' ∧ simplifyPath path ≠ ['/']) := by
  have hsim := (simplify_agrees habs hdd).1
  rcases pathEscape_spec habs hnul hdd with ⟨hroot, he⟩ | ⟨j, -, hjn, hs, he⟩
  · refine ⟨_, he, ?_, iff_of_false ?_ (fun h => h.2 hroot)⟩
    · exact iff_of_true (by simp [escapePathForUnit, hsim, hroot]) (by simp [hroot])
    · have hnil : path ≠ [] := by
        rintro rfl
        cases habs
      rw [finalizeAutomount, if_neg (not_not.mpr (suffix_append _ _)), if_neg (by decide)]
      cases pathFromUnitName (['-'] ++ automountSuffix) automountSuffix with
      | error message => simp [bind, Except.bind]
      | ok derived => simp [hnil, hsim, hroot, bind, Except.bind, pure, Except.pure]
  have hloader := escapePathForUnit_of_ne (hs ▸ hsim) hjn
  have hsame : unitNameEscape j = (utf8 j).flatMap escapeByte ↔
      (simplifyPath path)[1]? ≠ some '.' := by
    rw [hs, getElem?_cons_succ, ← head?_eq_getElem?]
    exact ⟨fun heq hdot => unitNameEscape_hidden hdot heq, unitNameEscape_plain⟩
  have hroot : simplifyPath path ≠ ['/'] := by
    rw [hs]
    exact fun heq => hjn (tail_eq_of_cons_eq heq)
  refine ⟨_, he, ?_, ?_⟩
  · rw [← hsame]
    constructor
    · intro hall
      have hnone := Except.ok.inj ((hall []).symm.trans (hloader []))
      exact append_cancel_right hnone
    · intro heq suffix
      rw [heq, hloader]
  · rw [finalizeAutomount_eq habs hdd hroot (stemLetter_unitNameEscape j) (hloader _), hsame]
    simp [hroot]

theorem tool_stem_accepted_dash :
    (∀ suffix, escapePathForUnit "/a//b-c".toList suffix = .ok ("a-b\\x2dc".toList ++ suffix)) ∧
      finalizeAutomount ("a-b\\x2dc".toList ++ automountSuffix) "/a//b-c".toList =
        .ok "/a/b-c".toList := by
  obtain ⟨stem, hstem, hloader, hautomount⟩ :=
    tool_stem_accepted (show "/a//b-c".toList.head? = some '/' from rfl) (by decide) (by decide)
  obtain rfl : "a-b\\x2dc".toList = stem := Except.ok.inj hstem
  exact ⟨hloader.mpr (by decide), hautomount.mpr (by decide)⟩

/-- A hidden file at the root has two names, and the loader does not take the tool's. -/
theorem hidden_stems_differ :
    pathEscape "/.a".toList = .ok "\\x2ea".toList ∧
      escapePathForUnit "/.a".toList [] = .ok ".a".toList ∧
      (finalizeAutomount ("\\x2ea".toList ++ automountSuffix) "/.a".toList).toOption = none := by
  exact ⟨rfl, rfl, rfl⟩

/-! ### Laws -/

private theorem zero_not_mem_utf8 {text : List Char} (h : '\x00' ∉ text) :
    (0 : UInt8) ∉ utf8 text := by
  intro h0
  obtain ⟨c, hc, h0⟩ := mem_flatMap.mp h0
  rw [String.utf8EncodeChar] at h0
  split_ifs at h0 with h1 h2 h3 <;> simp [← UInt8.toNat_inj] at h0
  · have hz : c.toNat = 0 := by
      have : c.toNat ≤ 127 := h1
      omega
    have he : c = '\x00' := Char.toNat_inj.mp hz
    exact h (he ▸ hc)
  all_goals omega

private theorem decode_unitNameEscape (v : List Char) :
    decodeBytes (utf8 (unitNameEscape v)) = some (utf8 v) := by
  rw [unitNameEscape.eq_def]
  split
  next rest =>
    have hx : utf8 (pushHexEscape '.'.toUInt8 ++ (utf8 rest).flatMap escapeByte) =
        [92, 120, 50, 101] ++ utf8 ((utf8 rest).flatMap escapeByte) := by
      rw [utf8, flatMap_append]
      rfl
    rw [hx]
    exact congrArg (Option.map (46 :: ·)) (read_escaped (utf8 rest)).1
  · exact (read_escaped _).1

private theorem unitNameEscape_ne {v stem t : List Char}
    (h : decodeBytes (utf8 stem) = some (utf8 t)) (hne : v ≠ t) : unitNameEscape v ≠ stem := by
  rintro rfl
  exact hne (utf8_injective (Option.some.inj ((decode_unitNameEscape v).symm.trans h)))

theorem unescape_escape (h : '\x00' ∉ v) : unitNameUnescape (unitNameEscape v) = .ok v := by
  have ht : (utf8 v).takeWhile (· ≠ 0) = utf8 v :=
    takeWhile_eq_self_iff.mpr fun b hb => by
      simpa using fun he : b = 0 => zero_not_mem_utf8 h (he ▸ hb)
  rw [unitNameUnescape, decode_unitNameEscape, Option.bind_some, ht, fromUtf8_utf8]

private theorem last_ne_slash (path : List Char) :
    (['/'].intercalate (keptParts path)).getLast? ≠ some '/' := by
  rcases eq_nil_or_concat (keptParts path) with hk | ⟨m, p, hk⟩
  · simp [hk]
  obtain ⟨hne, hs, -⟩ := part_spec (by simp [hk] : p ∈ keptParts path)
  obtain ⟨p, c, rfl⟩ := (eq_nil_or_concat p).resolve_left hne
  have hc : c ≠ '/' := fun he => hs (by simp [he])
  rw [hk, concat_eq_append, concat_eq_append]
  by_cases hm : m = []
  · simpa [hm] using hc
  · rw [intercalate_concat hm, ← append_assoc, getLast?_concat]
    simpa using hc

private theorem unescape_path (habs : path.head? = some '/') (hnul : '\x00' ∉ path)
    (hdd : dotDot ∉ path.splitOn '/') :
    ∃ s, pathEscape path = .ok s ∧ pathUnescape s = .ok (simplifyPath path) := by
  rcases pathEscape_spec habs hnul hdd with ⟨hro, he⟩ | ⟨j, hj, hjn, hs, he⟩
  · exact ⟨_, he, by rw [hro]; rfl⟩
  have hh := head_ne_slash path
  have hl := last_ne_slash path
  have hk : keptParts path ≠ [] := fun hk => hjn (by rw [hj, hk]; rfl)
  rw [← hj] at hh hl
  have hnj : '\x00' ∉ j := by
    rw [hj]
    refine not_mem_intercalate (by decide) fun pa hp hn => hnul ?_
    have hi : pa <:+: ['/'].intercalate _ := isInfix_intercalate (part_spec hp).2.2
    rw [intercalate_splitOn] at hi
    exact hi.subset hn
  have hdj : dotDot ∉ ('/' :: j).splitOn '/' := by
    have ht : '/' :: j = ['/'].intercalate ([] :: keptParts path) := by
      obtain ⟨pa, m, hk⟩ := exists_cons_of_ne_nil hk
      rw [hj, hk, intercalate_cons_cons]
      rfl
    rw [ht, splitOn_intercalate _ (by simpa using fun p hp => (part_spec hp).2.1) (by simp)]
    simpa [dotDot] using fun hm => hdd (part_spec hm).2.2
  refine ⟨_, he, ?_⟩
  rw [pathUnescape, if_neg (unitNameEscape_ne (t := []) rfl hjn),
    if_neg (unitNameEscape_ne (t := ['/']) rfl fun he => hh (by rw [he]; rfl)),
    unescape_escape hnj, hs]
  exact if_neg (by simp [hh, hl, hdj])

private theorem isValid_of_letters {stem s : List Char} (hne : stem ≠ [])
    (hl : ∀ c ∈ stem, stemLetter c = true) (hs : s ∈ unitTypes)
    (hln : (utf8 (stem ++ '.' :: s)).length < 256) : isValidUnitName (stem ++ '.' :: s) = true := by
  have hdot : ∀ t ∈ unitTypes, '.' ∉ t := by decide
  have hr : rsplitOnce '.' (stem ++ '.' :: s) = some (stem, s) :=
    rsplitOnce_eq_some.mpr ⟨hdot s hs, rfl⟩
  have hat : '@' ∉ stem := fun hm => absurd (hl _ hm) (by decide)
  have hh : stem.head? ≠ some '@' := fun he => hat (mem_of_mem_head? he)
  have hall : (stem.all fun c => c == '@' || stemLetter c) = true := by
    rw [all_eq_true]
    exact fun c hc => by simp [hl c hc]
  simp [isValidUnitName, hasValidSuffix, hln, hr, hs, hne, hh, count_eq_zero.mpr hat, hall]

private theorem mangle_of_valid (h : isValidUnitName r = true) : unitNameMangle r = .ok r := by
  have hne : r ≠ [] := by
    rintro rfl
    exact absurd h (by decide)
  rw [unitNameMangle, if_neg hne, if_pos h]

private theorem mangled_valid (h : unitNameMangle v = .ok r)
    (hln : (utf8 r).length < 256) : isValidUnitName r = true := by
  rw [unitNameMangle] at h
  split at h
  · cases h
  split at h
  next hv =>
    cases h
    exact hv
  split at h
  next habs =>
    -- The path is escaped, and an escaped path has no letter that a name does not take.
    dsimp only at h
    rcases hp : pathEscape (simplifyPath v) with e | stem <;> rw [hp] at h <;> cases h
    have hnul : '\x00' ∉ simplifyPath v := by
      intro hn
      rw [pathEscape, if_pos hn] at hp
      cases hp
    have hdd : dotDot ∉ (simplifyPath v).splitOn '/' := by
      intro hd
      rw [pathEscape, if_neg hnul, if_pos hd] at hp
      cases hp
    have hab : (simplifyPath v).head? = some '/' := by
      rw [simplifyPath, if_pos habs, if_pos habs]
      split <;> rfl
    have hst : stem ≠ [] ∧ ∀ c ∈ stem, stemLetter c = true := by
      rcases pathEscape_spec hab hnul hdd with ⟨-, he⟩ | ⟨j, -, hjn, -, he⟩ <;>
        obtain rfl := Except.ok.inj (hp.symm.trans he)
      · exact ⟨by simp, forall_mem_singleton.mpr rfl⟩
      · exact ⟨unitNameEscape_ne (t := []) rfl hjn, stemLetter_unitNameEscape j⟩
    refine isValid_of_letters hst.1 hst.2 ?_ hln
    split <;> decide
  · dsimp only at h
    generalize (if hasValidSuffix _ = true then _ else _) = output at h
    split at h
    next hv =>
      cases h
      exact hv
    · cases h

/-- What was escaped is read back, as text and as path, and a name that was made valid stays as it
is. -/
theorem escape_tool_laws :
    (∀ v, '\x00' ∉ v → unitNameUnescape (unitNameEscape v) = .ok v) ∧
    (∀ path : List Char, path.head? = some '/' → '\x00' ∉ path → dotDot ∉ path.splitOn '/' →
      ∃ stem, pathEscape path = .ok stem ∧ pathUnescape stem = .ok (simplifyPath path)) ∧
    ∀ v r, unitNameMangle v = .ok r → (utf8 r).length < 256 →
      isValidUnitName r = true ∧ unitNameMangle r = .ok r :=
  ⟨fun _ h => unescape_escape h, fun _ habs hnul hdd => unescape_path habs hnul hdd,
    fun _ _ h hln => ⟨mangled_valid h hln, mangle_of_valid (mangled_valid h hln)⟩⟩

end
end Rustd.Unit.EscapeTool
