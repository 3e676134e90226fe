import Rustd.Base.Text
import Rustd.Glob

/-!
# The hardware database

`src/bin/rustd-hwdb.rs`: `update` compiles the source files into records with their lengths before
them, and a query reads the records back, or the source files when there are none. The JSON text of
a record is a parameter.
-/

namespace Rustd.Hwdb

open Base List

/-- Values of `serde_json` as far as records are made of them. -/
inductive Json where
  | str (text : List Char)
  | num (n : Nat)
  | arr (items : List Json)
  | obj (members : List (List Char × Json))

/-- `HwdbRule`; the path is its text. -/
structure HwdbRule where
  sourceFile : List Char
  lineNumber : Nat
  patterns : List (List Char)
  properties : List (List Char × List Char)

/-- The variables of the loop of `parse_hwdb_file`: the rules, the block that is read, with the line
it starts on, and the number of the next line. -/
structure Reader where
  rules : List HwdbRule
  block : HwdbRule
  next : Nat

variable (strict : Bool)

/-- Part of `parse_hwdb_file`, `src/bin/rustd-hwdb.rs:130`. -/
def Reader.push (s : Reader) : Reader :=
  { s with rules := s.rules ++ [s.block], block.patterns := [], block.properties := [] }

/-- One line; the result is `none` for a syntax error. -/
def Reader.step (s : Reader) (line : List Char) : Option Reader :=
  let trimmed := trim line
  let number := s.next
  let s := { s with next := s.next + 1 }
  if trimmed = [] ∨ trimmed.head? = some '#' then
    some (if s.block.patterns ≠ [] ∧ s.block.properties ≠ [] then s.push else s)
  else if line.head? = some ' ' ∨ line.head? = some '\t' then
    if s.block.patterns = [] then if strict then none else some s
    else match splitOnce '=' trimmed with
      | some (k, v) => some { s with
          block.properties := s.block.properties ++ [(trim k, trim v)] }
      | none => if strict then none else some s
  else
    let s := if s.block.properties ≠ [] then s.push else s
    some { s with
      block.lineNumber := if s.block.patterns = [] then number else s.block.lineNumber
      block.patterns := s.block.patterns ++ [trimmed] }

/-- `parse_hwdb_file` of the file with a path and a text. -/
def parseHwdbFile (path text : List Char) : Option (List HwdbRule) :=
  ((lines text).foldlM (Reader.step strict) ⟨[], ⟨path, 1, [], []⟩, 1⟩).bind fun s =>
    if s.block.patterns ≠ [] ∧ s.block.properties ≠ [] then some s.push.rules
    else if s.block.patterns ≠ [] ∧ strict then none
    else some s.rules

/-- `load_all_rules`; a file that cannot be read has no text. -/
def loadAllRules : List (List Char × Option (List Char)) → Option (List HwdbRule)
  | [] => some []
  | (path, file) :: files =>
    match file.bind (parseHwdbFile strict path) with
    | some rules => (loadAllRules files).map (rules ++ ·)
    | none => if strict then none else loadAllRules files

namespace Json

/-- The value that `handle_update` writes for a rule, its members in the order of a `BTreeMap`. -/
def ofRule (rule : HwdbRule) : Json :=
  .obj [("line".toList, .num rule.lineNumber),
    ("patterns".toList, .arr (rule.patterns.map .str)),
    ("properties".toList, .arr (rule.properties.map fun (k, v) => .arr [.str k, .str v])),
    ("source".toList, .str rule.sourceFile)]

/-- `val[key]`; without such a member it is a value that is nothing of what is asked for. -/
def get (value : Json) (key : String) : Json :=
  match value with
  | .obj members => (members.lookup key.toList).getD (.obj [])
  | _ => .obj []

/-- `as_str`. -/
def asStr : Json → Option (List Char)
  | .str text => some text
  | _ => none

/-- `as_u64`. -/
def asU64 : Json → Option Nat
  | .num n => some n
  | _ => none

/-- `as_array`. -/
def asArray : Json → Option (List Json)
  | .arr items => some items
  | _ => none

/-- A property, of an array of at least two texts. -/
def asProperty (value : Json) : Option (List Char × List Char) := do
  let items ← value.asArray
  return (← (← items[0]?).asStr, ← (← items[1]?).asStr)

/-- The rule that `load_rules_from_bin_or_sources` takes from a value. -/
def toRule (value : Json) : HwdbRule where
  sourceFile := ((value.get "source").asStr).getD []
  lineNumber := ((value.get "line").asU64).getD 1
  patterns := (((value.get "patterns").asArray).getD []).filterMap asStr
  properties := (((value.get "properties").asArray).getD []).filterMap asProperty

private theorem toRule_ofRule (rule : HwdbRule) : (ofRule rule).toRule = rule := by
  have hpatterns : rule.patterns.filterMap (asStr ∘ Json.str) = rule.patterns :=
    filterMap_some
  have hproperties : rule.properties.filterMap
      (fun kv => (arr [str kv.1, str kv.2]).asProperty) = rule.properties := filterMap_some
  simp [toRule, ofRule, get, asStr, asU64, asArray, lookup, filterMap_map, hpatterns, hproperties]

end Json

variable (toVec : Json → List UInt8) (fromSlice : List UInt8 → Option Json)

/-- The records of a database: the length of a text and the text. -/
def records (rules : List HwdbRule) : List UInt8 :=
  rules.flatMap fun rule =>
    littleEndian 4 (toVec (.ofRule rule)).length ++ toVec (.ofRule rule)

/-- The database that `handle_update` writes. -/
def handleUpdate (files : List (List Char × Option (List Char))) : Option (List UInt8) :=
  (loadAllRules strict files).map fun rules =>
    ascii "HWDB" ++ (littleEndian 4 1 ++ littleEndian 8 rules.length) ++ records toVec rules

/-- The loop over the records; a turn takes at least four bytes. -/
def readRecords : Nat → List UInt8 → List HwdbRule
  | 0, _ => []
  | fuel + 1, data =>
    if data.length < 4 then []
    else
      let len := ofLittleEndian (data.take 4)
      let rest := data.drop 4
      if rest.length < len then []
      else ((fromSlice (rest.take len)).map Json.toRule).toList ++
        readRecords fuel (rest.drop len)

/-- The rules of a database, or of the sources if it has none. -/
def loadRulesFromBinOrSources (bin : Option (List UInt8))
    (files : List (List Char × Option (List Char))) : Option (List HwdbRule) :=
  match bin with
  | none => loadAllRules strict files
  | some data =>
    let rules := if 16 ≤ data.length ∧ data.take 4 = ascii "HWDB" then
      readRecords fromSlice data.length (data.drop 16) else []
    if rules.isEmpty then loadAllRules strict files else some rules

/-- `query_rules`: the properties are a map, and the rules that match are counted. -/
def queryRules (rules : List HwdbRule) (modalias : List Char) :
    (List Char → Option (List Char)) × Nat :=
  rules.foldl (fun found rule =>
    if rule.patterns.any fun p => Glob.matchesBytes (utf8 p) (utf8 modalias) then
      (rule.properties.foldl (fun m (k, v) => Function.update m k (some v)) found.1, found.2 + 1)
    else found) (fun _ => none, 0)

variable {strict toVec fromSlice}

/-- The text of a rule is read back, and its length fits in the record. -/
def Faithful (toVec : Json → List UInt8) (fromSlice : List UInt8 → Option Json)
    (rule : HwdbRule) : Prop :=
  fromSlice (toVec (.ofRule rule)) = some (.ofRule rule) ∧
    (toVec (.ofRule rule)).length < 2 ^ 32

private theorem readRecords_records {rules : List HwdbRule}
    (h : ∀ r ∈ rules, Faithful toVec fromSlice r)
    (fuel : Nat) (hf : rules.length < fuel) :
    readRecords fromSlice fuel (records toVec rules) = rules := by
  induction rules generalizing fuel with
  | nil =>
    obtain ⟨fuel, rfl⟩ := Nat.exists_eq_add_one.mpr hf
    rfl
  | cons r rules ih =>
    obtain ⟨⟨hj, hr⟩, h⟩ := forall_mem_cons.mp h
    obtain ⟨fuel, rfl⟩ := Nat.exists_eq_add_one.mpr (Nat.zero_lt_of_lt hf)
    have hn : ofLittleEndian (littleEndian 4 (toVec (.ofRule r)).length) =
        (toVec (.ofRule r)).length := ofLittleEndian_littleEndian hr
    have ht : (records toVec (r :: rules)).take 4 =
        littleEndian 4 (toVec (.ofRule r)).length := by simp [records]
    have hd : (records toVec (r :: rules)).drop 4 = toVec (.ofRule r) ++ records toVec rules := by
      simp [records]
    have hle : ¬(records toVec (r :: rules)).length < 4 := by
      simp [records]
    rw [readRecords, if_neg hle, ht, hd, hn]
    simp [hj, ih h fuel (Nat.lt_of_succ_lt_succ hf), Json.toRule_ofRule]

private theorem length_le_records (rules : List HwdbRule) :
    rules.length ≤ (records toVec rules).length := by
  induction rules with
  | nil => exact Nat.zero_le _
  | cons r rules ih =>
    simp only [records, flatMap_cons, length_append, length_cons, length_littleEndian] at ih ⊢
    omega

/-- A query on the written database answers as one on the sources does. -/
theorem compiled_database_faithful {files : List (List Char × Option (List Char))}
    {data : List UInt8}
    (h : handleUpdate strict toVec files = some data)
    (hj : ∀ rules ∈ loadAllRules strict files, ∀ r ∈ rules, Faithful toVec fromSlice r)
    (modalias : List Char) :
    (loadRulesFromBinOrSources strict fromSlice (some data) files).map (queryRules · modalias) =
      (loadAllRules strict files).map (queryRules · modalias) := by
  obtain ⟨rules, hr, rfl⟩ := Option.map_eq_some_iff.mp h
  have hl : _ ≤ (records toVec rules).length := length_le_records rules
  generalize hg : ascii "HWDB" ++ (littleEndian 4 1 ++ littleEndian 8 rules.length) = header
  have hh : header.length = 16 := by simp [← hg, ascii]
  have hm : header.take 4 = ascii "HWDB" := by
    rw [← hg]
    exact take_left' rfl
  have hb := readRecords_records (hj rules hr) (header ++ records toVec rules).length
    (by rw [length_append]; omega)
  have hle : 16 ≤ (header ++ records toVec rules).length := by rw [length_append]; omega
  have hm' : (header ++ records toVec rules).take 4 = ascii "HWDB" := by
    rw [take_append_of_le_length (by omega), hm]
  rw [loadRulesFromBinOrSources, drop_left' hh]
  simp only [hle, hm', and_self, if_true, hb]
  split
  · rfl
  · rw [hr]

/-- Compact JSON of texts without quotes, backslashes and control characters. -/
def Json.compact : Json → List Char
  | .str text => '"' :: (text ++ ['"'])
  | .num n => Nat.toDigits 10 n
  | .arr items => '[' :: ([','].intercalate (compactAll items) ++ [']'])
  | .obj members => '\x7b' :: ([','].intercalate (compactMembers members) ++ ['\x7d'])
where
  compactAll : List Json → List (List Char)
    | [] => []
    | item :: items => item.compact :: compactAll items
  compactMembers : List (List Char × Json) → List (List Char)
    | [] => []
    | (key, value) :: members => ('"' :: (key ++ '"' :: ':' :: value.compact)) ::
        compactMembers members

def sampleFiles : List (List Char × Option (List Char)) :=
  [("/etc/udev/hwdb.d/a.hwdb".toList, some "usb:v1*\n A=1\n\n# all\nusb:*\npci:*\n B=2".toList)]

def sampleRules : List HwdbRule :=
  [⟨"/etc/udev/hwdb.d/a.hwdb".toList, 1, ["usb:v1*".toList], [(['A'], ['1'])]⟩,
    ⟨"/etc/udev/hwdb.d/a.hwdb".toList, 5, ["usb:*".toList, "pci:*".toList], [(['B'], ['2'])]⟩]

def sampleToVec (value : Json) : List UInt8 := utf8 value.compact

def sampleFromSlice (data : List UInt8) : Option Json :=
  (sampleRules.map Json.ofRule).find? fun value => sampleToVec value == data

theorem compiled_database_faithful_two : ∃ data,
    handleUpdate true sampleToVec sampleFiles = some data ∧
      (loadRulesFromBinOrSources true sampleFromSlice (some data) sampleFiles).map
          (queryRules · "usb:v1p2".toList) =
        (loadAllRules true sampleFiles).map (queryRules · "usb:v1p2".toList) ∧
      (loadAllRules true sampleFiles).map (fun rules => (queryRules rules "usb:v1p2".toList).2) =
        some 2 := by
  have hrules : loadAllRules true sampleFiles = some sampleRules := rfl
  have hdata : handleUpdate true sampleToVec sampleFiles = some _ := congrArg _ hrules
  refine ⟨_, hdata, compiled_database_faithful hdata ?_ _, by decide +kernel⟩
  intro rules hr
  obtain rfl := Option.some.inj (hrules.symm.trans hr)
  simp only [sampleRules, forall_mem_cons, not_mem_nil, false_implies, implies_true, and_true]
  exact ⟨⟨rfl, by decide⟩, ⟨rfl, by decide⟩⟩

end Rustd.Hwdb
