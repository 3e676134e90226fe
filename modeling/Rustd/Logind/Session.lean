import Rustd.Base.Text

/-!
# Session records

`src/logind/mod.rs`: a session is stored as lines `KEY=value` and read back by taking the last
value of every key, without the white space around it. A record is read back as it was written
exactly when none of its texts holds a newline or starts or ends with white space.
-/

namespace Rustd.Logind

open Base List Option

/-- `Session` of `src/logind/mod.rs:15`. -/
structure Session where
  id : List Char
  uid : UInt32
  user : List Char
  gid : UInt32
  seat : List Char
  tty : List Char
  service : List Char
  sessionType : List Char
  sessionClass : List Char
  desktop : List Char
  display : List Char
  remote : Bool
  remoteUser : List Char
  remoteHost : List Char
  leader : UInt32
  state : List Char
  locked : Bool
  deriving DecidableEq

/-- The fields of a record, in the order of `Session::serialize`. -/
inductive Field where
  | uid | gid | user | seat | tty | service | sessionType | sessionClass | desktop | display
  | remote | remoteUser | remoteHost | leader | state | locked
  deriving DecidableEq

namespace Field

def key : Field → List Char
  | .uid => "UID".toList
  | .gid => "GID".toList
  | .user => "USER".toList
  | .seat => "SEAT".toList
  | .tty => "TTY".toList
  | .service => "SERVICE".toList
  | .sessionType => "TYPE".toList
  | .sessionClass => "CLASS".toList
  | .desktop => "DESKTOP".toList
  | .display => "DISPLAY".toList
  | .remote => "REMOTE".toList
  | .remoteUser => "REMOTE_USER".toList
  | .remoteHost => "REMOTE_HOST".toList
  | .leader => "LEADER".toList
  | .state => "STATE".toList
  | .locked => "LOCKED".toList

/-- All fields, in the order of `Session::serialize`. -/
def all : List Field :=
  [.uid, .gid, .user, .seat, .tty, .service, .sessionType, .sessionClass, .desktop, .display,
    .remote, .remoteUser, .remoteHost, .leader, .state, .locked]

theorem mem_all (f : Field) : f ∈ all := by
  cases f <;> decide

private theorem nodup_all : all.Nodup := by decide

private theorem key_injective {f g : Field} (h : f.key = g.key) : f = g := by
  revert h
  cases f <;> cases g <;> decide

private theorem key_letters (f : Field) :
    '=' ∉ f.key ∧ '\n' ∉ f.key ∧ ∀ c ∈ f.key, isWhitespace c = false := by
  refine ⟨by cases f <;> decide, by cases f <;> decide, ?_⟩
  have hkey : f.key.all (!isWhitespace ·) = true := by cases f <;> decide
  simpa using hkey

end Field

def yesNo (b : Bool) : List Char := if b then "yes".toList else "no".toList

variable (s : Session) (values : List (List Char × List Char)) (f : Field)

/-- What `Session::serialize` writes for a field. -/
def Session.text : Field → List Char
  | .uid => decimal s.uid.toNat
  | .gid => decimal s.gid.toNat
  | .user => s.user
  | .seat => s.seat
  | .tty => s.tty
  | .service => s.service
  | .sessionType => s.sessionType
  | .sessionClass => s.sessionClass
  | .desktop => s.desktop
  | .display => s.display
  | .remote => yesNo s.remote
  | .remoteUser => s.remoteUser
  | .remoteHost => s.remoteHost
  | .leader => decimal s.leader.toNat
  | .state => s.state
  | .locked => yesNo s.locked

def Session.row : List Char := f.key ++ '=' :: s.text f

/-- `Session::serialize` of `src/logind/mod.rs:107`. -/
def Session.serialize : List Char :=
  (Field.all.map s.row).flatMap (· ++ ['\n'])

/-- The values of a text in the order of its lines: `parse` up to the map it collects into. -/
def parse (text : List Char) : List (List Char × List Char) :=
  ((lines text).filterMap (splitOnce '=')).map fun item => (trim item.1, trim item.2)

def valueOf : Option (List Char) :=
  values.reverse.lookup f.key

/-- A `u32` value, 0 if there is none. -/
def number : UInt32 :=
  (((valueOf values f).bind (parseUnsigned (2 ^ 32))).getD 0).toUInt32

def string (default : String) : List Char :=
  (valueOf values f).getD default.toList

/-- A value that is true when it is `yes`. -/
def flag : Bool :=
  valueOf values f == some "yes".toList

/-- `Session::from_map` of `src/logind/mod.rs:64`. -/
def Session.fromMap (id : List Char) (values : List (List Char × List Char)) : Session where
  id := id
  uid := number values .uid
  gid := number values .gid
  leader := number values .leader
  user := string values .user ""
  seat := string values .seat "seat0"
  tty := string values .tty ""
  service := string values .service ""
  sessionType := string values .sessionType "unspecified"
  sessionClass := string values .sessionClass "user"
  desktop := string values .desktop ""
  display := string values .display ""
  remote := flag values .remote
  remoteUser := string values .remoteUser ""
  remoteHost := string values .remoteHost ""
  state := string values .state "active"
  locked := flag values .locked

def Clean (text : List Char) : Prop := '\n' ∉ text ∧ trim text = text

instance (text : List Char) : Decidable (Clean text) := instDecidableAnd

def Session.Clean (s : Session) : Prop := ∀ f, Logind.Clean (s.text f)

variable {text : List Char} {f : Field} {values : List (List Char × List Char)}

/-! ### Reading a clean record -/

private theorem clean_of_no_whitespace (h : ∀ c ∈ text, isWhitespace c = false) : Clean text := by
  refine ⟨fun hmem => ?_, trim_eq_self_of_forall h⟩
  have := h '\n' hmem
  revert this
  decide

private theorem clean_decimal (n : Nat) : Clean (decimal n) :=
  clean_of_no_whitespace fun _ hc => not_isWhitespace_of_mem_decimal hc

theorem clean_yesNo (b : Bool) : Clean (yesNo b) := by
  cases b <;> decide

private theorem clean_key (f : Field) : Clean f.key := clean_of_no_whitespace f.key_letters.2.2

variable {s : Session}

private theorem parse_serialize (h : ∀ f, '\n' ∉ s.text f) :
    parse s.serialize = Field.all.map fun f => (f.key, trim (s.text f)) := by
  have hro : ∀ row ∈ Field.all.map s.row, '\n' ∉ row := by
    intro row hrow
    obtain ⟨f, -, rfl⟩ := List.mem_map.mp hrow
    simp only [Session.row, mem_append, mem_cons, not_or]
    exact ⟨f.key_letters.2.1, by decide, h f⟩
  have hcut : ∀ f, splitOnce '=' (stripReturn (s.row f)) =
      some (f.key, stripReturn (s.text f)) := by
    intro f
    rw [Session.row, stripReturn_append_cons (by decide)]
    exact splitOnce_eq_some.mpr ⟨f.key_letters.1, rfl⟩
  rw [parse, Session.serialize, lines_flatMap hro, List.map_map, filterMap_map]
  have hprt : Field.all.filterMap (splitOnce '=' ∘ stripReturn ∘ s.row) =
      Field.all.map fun f => (f.key, stripReturn (s.text f)) := by
    rw [← filterMap_eq_map]
    refine filterMap_congr fun f _ => ?_
    simp only [Function.comp, hcut]
  rw [hprt, List.map_map]
  refine map_congr_left fun f _ => ?_
  simp only [Function.comp, (clean_key f).2, trim_stripReturn]

private theorem valueOf_rows (v : Field → List Char) (f : Field) :
    valueOf (Field.all.map fun g => (g.key, v g)) f = some (v f) := by
  unfold valueOf
  rw [← map_reverse]
  have hmem : f ∈ Field.all.reverse := mem_reverse.mpr f.mem_all
  have hnp : Field.all.reverse.Nodup := nodup_reverse.mpr Field.nodup_all
  generalize Field.all.reverse = fi at hmem hnp
  induction fi with
  | nil => cases hmem
  | cons g fi ih =>
    rw [map_cons, lookup_cons]
    by_cases hfg : f = g
    · subst hfg
      simp
    have hkey : (f.key == g.key) = false :=
      beq_eq_false_iff_ne.mpr fun heq => hfg (Field.key_injective heq)
    rw [hkey]
    exact ih ((mem_cons.mp hmem).resolve_left hfg) (nodup_cons.mp hnp).2

theorem valueOf_parse_serialize (h : ∀ f, '\n' ∉ s.text f) (f : Field) :
    valueOf (parse s.serialize) f = some (trim (s.text f)) := by
  rw [parse_serialize h]
  exact valueOf_rows _ f

private theorem number_eq (h : valueOf values f = some (decimal n.toNat)) :
    number values f = n := by
  rw [number, h, bind_some, parseUnsigned_decimal n.toNat_lt]
  exact UInt32.ofNat_toNat

private theorem flag_eq (h : valueOf values f = some (yesNo b)) : flag values f = b := by
  rw [flag, h]
  cases b <;> decide

theorem string_eq (h : valueOf values f = some text) (d : String) : string values f d = text := by
  rw [string, h, getD_some]

theorem fromMap_parse_serialize (h : s.Clean) : Session.fromMap s.id (parse s.serialize) = s := by
  have hva : ∀ f, valueOf (parse s.serialize) f = some (s.text f) := by
    intro f
    rw [valueOf_parse_serialize (fun f => (h f).1), (h f).2]
  unfold Session.fromMap
  simp only [number_eq (hva .uid), number_eq (hva .gid), number_eq (hva .leader),
    flag_eq (hva .remote), flag_eq (hva .locked), string_eq (hva .user), string_eq (hva .seat),
    string_eq (hva .tty), string_eq (hva .service), string_eq (hva .sessionType),
    string_eq (hva .sessionClass), string_eq (hva .desktop), string_eq (hva .display),
    string_eq (hva .remoteUser), string_eq (hva .remoteHost), string_eq (hva .state), Session.text]

/-! ### What can be read -/

private theorem clean_of_mem_parse (h : a ∈ parse text) : Clean a.2 := by
  obtain ⟨⟨key, v⟩, hcut, rfl⟩ := List.mem_map.mp h
  obtain ⟨n, hli, hsl⟩ := mem_filterMap.mp hcut
  obtain ⟨-, rfl⟩ := splitOnce_eq_some.mp hsl
  refine ⟨fun hmem => newline_not_mem_of_mem_lines hli ?_, trim_trim v⟩
  exact mem_append_right _ (mem_cons_of_mem _ ((trim_isInfix v).subset hmem))

private theorem clean_of_valueOf {value : List Char} (h : valueOf (parse text) f = some value) :
    Clean value := by
  obtain ⟨l, r, hr, -⟩ := lookup_eq_some_iff.mp h
  have hmem : (f.key, value) ∈ (parse text).reverse := by
    rw [hr]
    simp
  exact clean_of_mem_parse (mem_reverse.mp hmem)

private theorem clean_string (text : List Char) (f : Field)
    (hd : Clean d.toList) : Clean (string (parse text) f d) := by
  unfold string
  cases h : valueOf (parse text) f with
  | none => exact hd
  | some v => exact clean_of_valueOf h

theorem clean_fromMap (id text : List Char) : (Session.fromMap id (parse text)).Clean := by
  intro f
  cases f
  case uid => exact clean_decimal _
  case gid => exact clean_decimal _
  case leader => exact clean_decimal _
  case remote => exact clean_yesNo _
  case locked => exact clean_yesNo _
  all_goals exact clean_string _ _ (by decide)

end Rustd.Logind
