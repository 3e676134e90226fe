import Rustd.Glob
import Rustd.Oom
import Rustd.Udev.Substitution

/-!
# Running udev rules

`src/udev.rs`: `apply_rules` walks over the rules and follows their jumps. A jump may lead back, and
`:=` assigns as `=` does: the walk ends where the rules that match only jump forward, and a field
keeps its value where no rule that matches later assigns to it.
-/

namespace Rustd.Udev

open Base List

/-- `Operator` of `src/udev.rs:140`. -/
inductive Operator where
  | matches | noMatch | assign | add | final
  deriving DecidableEq

def Operator.assigns : Operator → Bool
  | assign | add | final => true
  | _ => false

/-- `Token` of `src/udev.rs:149`. -/
structure Token where
  key : Text
  attr : Option Text
  op : Operator
  value : Text
  deriving DecidableEq

/-- `Rule` of `src/udev.rs:157`. -/
abbrev Rule := List Token

def Token.has (t : Token) (key : String) : Bool := t.key == key.toList

variable {W : Type}

section

variable (host : Host W) (k : Nat) (w : W) (d : RuleDevice) (t : Token)

/-- `value_matches` of `src/udev.rs:420`. -/
def valueMatches (value pattern : Text) : Bool :=
  (pattern.splitOn '|').any fun part => Glob.matchesBytes (utf8 part) (utf8 value)

/-- `token_value` of `src/udev.rs:426`. -/
def tokenValue : Text :=
  if t.has "ATTR" then (t.attr.bind (host.readAttr w d.syspath)).getD []
  else if t.has "ATTRS" then (t.attr.bind (host.parentAttr w d.syspath)).getD []
  else if t.has "ENV" then (t.attr.map d.property).getD []
  else if t.has "ACTION" || t.has "KERNEL" || t.has "SUBSYSTEM" then
    d.property t.key
  else []

def tokenMatches : Option Bool :=
  if t.op.assigns then some true
  else
    (expand host w d k t.value).map fun pattern =>
      let found :=
        if t.has "TEST" then host.testPathMatches w d pattern
        else if t.has "SYMLINK" then d.symlinks.any (valueMatches · pattern)
        else valueMatches (tokenValue host w d t) pattern
      found == (t.op == .matches)

/-- It stops at the first token that does not match. -/
def ruleMatches : Rule → Option Bool
  | [] => some true
  | t :: rest =>
    (tokenMatches host k w d t).bind fun found =>
      if found then ruleMatches rest else some false

def RuleDevice.insertProperty (d : RuleDevice) (property : Text × Text) :
    RuleDevice :=
  { d with properties := property :: d.properties.filter (·.1 ≠ property.1) }

/-- `unquote_import_value` of `src/udev.rs:795`. -/
def unquoteImportValue (value : Text) : Text :=
  let value := trim value
  if 2 ≤ value.length ∧ (value.head? = some '\x27' ∨ value.head? = some '"') ∧
      value.getLast? = value.head? then value.tail.dropLast
  else value

/-- `import_value` of `src/udev.rs:479`. -/
def importValue (kind : Option Text) (value : Text) : RuleDevice × W :=
  if kind = some "builtin".toList then
    let (properties, w) := host.runBuiltin w d value
    (properties.foldl .insertProperty d, w)
  else if kind = some "program".toList then
    let (output, w) := host.commandOutput w d value
    let properties := (lines (output.getD [])).filterMap (splitOnce '=')
    (properties.foldl (fun x p => x.insertProperty (p.1, unquoteImportValue p.2)) d, w)
  else (d, w)

/-- `u32::from_str_radix(_, 8)`. -/
def parseOctal (text : Text) : Option UInt32 :=
  let digits := if text.head? = some '+' then text.tail else text
  let n := Nat.ofDigitChars 8 digits 0
  if digits ≠ [] ∧ digits.all (fun c => '0' ≤ c ∧ c ≤ '7') ∧ n < 2 ^ 32 then some (.ofNat n)
  else none

/-- The keys that `apply_assignment` knows. -/
inductive Target where
  | env | name | symlink | owner | group | mode | tag | imports | run

def Target.key : Target → String
  | env => "ENV"
  | name => "NAME"
  | symlink => "SYMLINK"
  | owner => "OWNER"
  | group => "GROUP"
  | mode => "MODE"
  | tag => "TAG"
  | imports => "IMPORT"
  | run => "RUN"

def Token.target : Option Target :=
  [.env, .name, .symlink, .owner, .group, .mode, .tag, .imports, .run].find? (t.has ·.key)

/-- The assignment of `apply_assignment`. -/
def assign (value : Text) : RuleDevice × W :=
  match t.target with
  | some .env => ((t.attr.map fun key => d.insertProperty (key, value)).getD d, w)
  | some .name => ({ d with name := some value }, w)
  | some .symlink =>
    ({ d with symlinks := d.symlinks ∪ Oom.splitWhitespace value }, w)
  | some .owner => ({ d with owner := some value }, w)
  | some .group => ({ d with group := some value }, w)
  | some .mode => ({ d with mode := parseOctal (value.dropWhile (· == '0')) }, w)
  | some .tag => ({ d with tags := d.tags ∪ Oom.splitWhitespace value }, w)
  | some .imports => importValue host w d t.attr value
  | some .run =>
    if t.attr = some "builtin".toList then importValue host w d t.attr value
    else if t.attr = none ∨ t.attr = some "program".toList then
      (d, (host.commandOutput w d value).2)
    else (d, w)
  | none => (d, w)

/-- The last rule with a label, as `apply_rules` collects them. -/
def label (rules : List Rule) (name : Text) : Option Nat :=
  let labels := rules.zipIdx.flatMap fun rule =>
    (rule.1.filter (·.has "LABEL")).map fun t => (t.value, rule.2)
  labels.reverse.lookup name

/-- Where the walk stands. -/
structure Machine (W : Type) where
  index : Nat
  device : RuleDevice
  world : W

/-- The assignments of a rule, with the jump that the last `GOTO` asks for. -/
def runTokens (rules : List Rule) :
    Rule → Option Nat × RuleDevice × W → Option (Option Nat × RuleDevice × W)
  | [], s => some s
  | t :: rest, (jump, d, w) =>
    if !t.op.assigns then runTokens rules rest (jump, d, w)
    else if t.has "GOTO" then runTokens rules rest (label rules t.value, d, w)
    else
      (expand host w d k t.value).bind fun value =>
        runTokens rules rest (jump, assign host w d t value)

/-- One turn of the loop of `apply_rules`. -/
def turn (rules : List Rule) (s : Machine W) (rule : Rule) : Option (Machine W) :=
  (ruleMatches host k s.world s.device rule).bind fun found =>
    if found then
      (runTokens host k rules rule (none, s.device, s.world)).map fun (jump, d, w) =>
        ⟨jump.getD (s.index + 1), d, w⟩
    else some { s with index := s.index + 1 }

inductive Outcome (W : Type) where
  | finished (s : Machine W)
  | running (s : Machine W)
  /-- A substitution did not end. -/
  | expanding

/-- The loop of `apply_rules` (322-353), cut off after so many turns: the indices of the rules that
are visited, and where the walk stands then. -/
def applyRules (rules : List Rule) : Nat → Machine W → List Nat × Outcome W
  | 0, s => ([], .running s)
  | n + 1, s =>
    match rules[s.index]? with
    | none => ([], .finished s)
    | some rule =>
      match turn host k rules s rule with
      | none => ([s.index], .expanding)
      | some s' =>
        let rest := applyRules rules n s'
        (s.index :: rest.1, rest.2)

end

variable {host : Host W} {k : Nat} {rules : List Rule} {rule : Rule} {s s' : Machine W}

/-! ### The walk -/

/-- The jump that the last `GOTO` of the rule asks for, if there is one. -/
def jumpAfter (rules : List Rule) (jump : Option Nat) (rule : Rule) : Option Nat :=
  rule.foldl (fun jump t => if t.op.assigns && t.has "GOTO" then label rules t.value else jump) jump

/-- The substitutions in the tokens that are read end: those of the comparisons up to the first that
fails and, where none fails, those of the assignments. -/
def Expands (host : Host W) (k : Nat) (rules : List Rule) (s : Machine W) (rule : Rule) : Prop :=
  ruleMatches host k s.world s.device rule ≠ none ∧
    (ruleMatches host k s.world s.device rule = some true →
      runTokens host k rules rule (none, s.device, s.world) ≠ none)

/-- The rule does not jump to itself or back, or it does not match. -/
def JumpsOn (host : Host W) (k : Nat) (rules : List Rule) (s : Machine W) (rule : Rule) : Prop :=
  ruleMatches host k s.world s.device rule = some true →
    ∀ target ∈ jumpAfter rules none rule, s.index < target

private theorem label_lt {name : Text} {target : Nat} (h : label rules name = some target) :
    target < rules.length := by
  obtain ⟨l, l', hlabels, -⟩ := lookup_eq_some_iff.mp h
  have hmem := mem_reverse.mp (hlabels ▸ mem_append_right l mem_cons_self)
  simp only [mem_flatMap, mem_map] at hmem
  obtain ⟨⟨rule, i⟩, hrule, t, -, hpair⟩ := hmem
  obtain ⟨-, rfl⟩ := Prod.mk.inj hpair
  exact (mem_zipIdx' hrule).1

private theorem jumpAfter_lt {target : Nat} (h : target ∈ jumpAfter rules none rule) :
    target < rules.length := by
  have hall : ∀ (jump : Option Nat), (∀ target ∈ jump, target < rules.length) →
      ∀ target ∈ jumpAfter rules jump rule, target < rules.length := by
    clear h
    induction rule with
    | nil => exact fun jump hjump => hjump
    | cons t rest ih =>
      intro jump hjump
      refine ih _ ?_
      dsimp only
      split
      · exact fun target => label_lt
      · exact hjump
  exact hall none (by simp) target h

private theorem runTokens_jump {jump jump' : Option Nat}
    (h : runTokens host k rules rule (jump, d, w) = some (jump', d', w')) :
    jump' = jumpAfter rules jump rule := by
  induction rule generalizing jump d w with
  | nil =>
    cases h
    rfl
  | cons t rest ih =>
    rw [jumpAfter, foldl_cons, ← jumpAfter]
    rw [runTokens] at h
    split at h
    next hop =>
      rw [if_neg (by simp_all)]
      exact ih h
    next hop =>
      split at h
      next hgoto =>
        rw [if_pos (by simp_all)]
        exact ih h
      next hgoto =>
        obtain ⟨value, -, h⟩ := Option.bind_eq_some_iff.mp h
        rw [if_neg (by simp_all)]
        exact ih h

/-- A turn that ends leads to the target of the rule's jump, or to the next rule. -/
theorem turn_index (h : turn host k rules s rule = some s') :
    Expands host k rules s rule ∧
      (s'.index = s.index + 1 ∨ ruleMatches host k s.world s.device rule = some true ∧
        s'.index ∈ jumpAfter rules none rule) ∧
      (ruleMatches host k s.world s.device rule = some true →
        ∀ target ∈ jumpAfter rules none rule, s'.index = target) := by
  obtain ⟨found, hfound, h⟩ := Option.bind_eq_some_iff.mp h
  rw [Expands, hfound]
  cases found with
  | false =>
    cases h
    simp
  | true =>
    obtain ⟨⟨jump, d, w⟩, hrun, rfl⟩ := Option.map_eq_some_iff.mp h
    rw [← runTokens_jump hrun, hrun]
    cases jump <;> simp

private theorem turn_ne_none (h : Expands host k rules s rule) :
    turn host k rules s rule ≠ none := by
  obtain ⟨hmatch, hrun⟩ := h
  obtain ⟨found, hfound⟩ := Option.ne_none_iff_exists'.mp hmatch
  rw [turn, hfound, Option.bind_some]
  cases found with
  | false => simp
  | true => simpa using hrun hfound

private theorem index_lt_of_jumpsOn (hturn : turn host k rules s rule = some s')
    (h : JumpsOn host k rules s rule) : s.index < s'.index := by
  rcases (turn_index hturn).2.1 with hnext | ⟨hmatch, hjump⟩
  · rw [hnext]
    exact Nat.lt_succ_self _
  · exact h hmatch _ hjump

/-- What is reached with one turn more is what is reached from behind the turn. -/
theorem running_succ (hrule : rules[s.index]? = some rule)
    (hturn : turn host k rules s rule = some s') (m : Nat) :
    (applyRules host k rules (m + 1) s).2 = (applyRules host k rules m s').2 := by
  simp only [applyRules, hrule, hturn]

/-- A walk that only goes on ends. -/
theorem finished_of_goesOn (n : Nat) (s : Machine W) (hn : rules.length - s.index < n)
    (h : ∀ m t, (applyRules host k rules m s).2 = .running t →
      ∀ rule ∈ rules[t.index]?, Expands host k rules t rule ∧ JumpsOn host k rules t rule) :
    (∃ t, (applyRules host k rules n s).2 = .finished t) ∧
      (applyRules host k rules n s).1.Pairwise (· < ·) ∧
      ∀ i ∈ (applyRules host k rules n s).1, s.index ≤ i := by
  fun_induction applyRules host k rules n s with
  | case1 => omega
  | case2 => simp
  | case3 n s rule hrule hturn => exact absurd hturn (turn_ne_none (h 0 s rfl rule hrule).1)
  | case4 n s rule hrule s' hturn rest ih =>
    have hlt := index_lt_of_jumpsOn hturn (h 0 s rfl rule hrule).2
    have hlength := (List.getElem?_eq_some_iff.mp hrule).1
    obtain ⟨hfinished, hpairwise, hle⟩ := ih (by omega) fun m t ht =>
      h (m + 1) t ((running_succ hrule hturn m).trans ht)
    rw [pairwise_cons, forall_mem_cons]
    exact ⟨hfinished, ⟨fun i hi => hlt.trans_le (hle i hi), hpairwise⟩, le_rfl,
      fun i hi => hlt.le.trans (hle i hi)⟩

/-- A walk that ends without visiting a rule twice only goes on. -/
theorem goesOn_of_finished (n : Nat) (s : Machine W)
    (hfinished : ∃ t, (applyRules host k rules n s).2 = .finished t)
    (hpairwise : (applyRules host k rules n s).1.Pairwise (· < ·)) (m : Nat) (t : Machine W)
    (ht : (applyRules host k rules m s).2 = .running t) :
    ∀ rule ∈ rules[t.index]?, Expands host k rules t rule ∧ JumpsOn host k rules t rule := by
  fun_induction applyRules host k rules n s generalizing m with
  | case1 => simp at hfinished
  | case2 n s hnone =>
    cases m with
    | zero =>
      cases ht
      simp [hnone]
    | succ m => simp [applyRules, hnone] at ht
  | case3 => simp at hfinished
  | case4 n s rule hrule s' hturn rest ih =>
    obtain ⟨hbelow, hpairwise⟩ := pairwise_cons.mp hpairwise
    cases m with
    | succ m =>
      rw [running_succ hrule hturn] at ht
      exact ih hfinished hpairwise m ht
    | zero =>
      cases ht
      intro rule' hrule'
      obtain rfl : rule = rule' := Option.some.inj (hrule.symm.trans hrule')
      refine ⟨(turn_index hturn).1, fun hmatch target htarget => ?_⟩
      obtain rfl := (turn_index hturn).2.2 hmatch target htarget
      refine hbelow _ ?_
      -- the target is a rule, and it is the next that is visited
      obtain ⟨rule', hnext⟩ := Option.ne_none_iff_exists'.mp
        (mt getElem?_eq_none_iff.mp (Nat.not_le.mpr (jumpAfter_lt htarget)))
      cases n with
      | zero => simp [rest, applyRules] at hfinished
      | succ n =>
        simp only [rest, applyRules, hnext]
        split <;> simp

/-- The walk ends and visits each rule at most once, in order, just where in every place that it
comes to the substitutions end and a rule that matches does not jump to itself or back. -/
theorem walk_ends_iff (host : Host W) (k : Nat) (rules : List Rule) (d : RuleDevice) (w : W) :
    (∃ n, (∃ s, (applyRules host k rules n ⟨0, d, w⟩).2 = .finished s) ∧
      (applyRules host k rules n ⟨0, d, w⟩).1.Pairwise (· < ·)) ↔
    ∀ m s, (applyRules host k rules m ⟨0, d, w⟩).2 = .running s →
      ∀ rule ∈ rules[s.index]?, Expands host k rules s rule ∧ JumpsOn host k rules s rule := by
  constructor
  · rintro ⟨n, hfinished, hpairwise⟩
    exact goesOn_of_finished n _ hfinished hpairwise
  · intro h
    obtain ⟨hfinished, hpairwise, -⟩ := finished_of_goesOn (rules.length + 1) ⟨0, d, w⟩
      (Nat.lt_succ_of_le (Nat.sub_le _ _)) h
    exact ⟨_, hfinished, hpairwise⟩

def token (key : String) (op : Operator) (value : String) : Token :=
  ⟨key.toList, none, op, value.toList⟩

/-- The second rule jumps over the third, and the last would jump back but does not match. -/
def jumps : List Rule :=
  [[token "LABEL" .assign "top"], [token "TEST" .noMatch "x", token "GOTO" .assign "end"],
    [token "GOTO" .assign "top"],
    [token "LABEL" .assign "end", token "TEST" .matches "x", token "GOTO" .assign "top"]]

theorem walk_ends_iff_jumps :
    (applyRules idleHost 1 jumps 4 ⟨0, plainDevice "sda" "/b" [], ()⟩).1 = [0, 1, 3] ∧
      ∀ m s, (applyRules idleHost 1 jumps m ⟨0, plainDevice "sda" "/b" [], ()⟩).2 = .running s →
        ∀ rule ∈ jumps[s.index]?,
          Expands idleHost 1 jumps s rule ∧ JumpsOn idleHost 1 jumps s rule :=
  ⟨by decide, (walk_ends_iff _ _ _ _ _).mp ⟨4, ⟨_, rfl⟩, by decide⟩⟩

/-- A rule that jumps to its own label is visited for ever. -/
theorem own_label_never_ends :
    ¬∃ n s, (applyRules idleHost 1 [[token "LABEL" .assign "a", token "GOTO" .assign "a"]] n
      ⟨0, plainDevice "sda" "/b" [], ()⟩).2 = .finished s := by
  rintro ⟨n, s, h⟩
  induction n with
  | zero => cases h
  | succ n ih => exact ih h

/-! ### Final assignments -/

/-- The fields for which a final assignment is meant to last. -/
inductive Field where
  | owner | group | mode | name | symlink

def Field.target : Field → Target
  | owner => .owner
  | group => .group
  | mode => .mode
  | name => .name
  | symlink => .symlink

inductive Content where
  | text (value : Option Text)
  | mode (value : Option UInt32)
  | links (value : List Text)

/-- What a key of a rule assigns to. -/
def RuleDevice.field (d : RuleDevice) : Field → Content
  | .owner => .text d.owner
  | .group => .text d.group
  | .mode => .mode d.mode
  | .name => .text d.name
  | .symlink => .links d.symlinks

/-- No assignment of the rule is to the field. -/
def Spares (f : Field) (rule : Rule) : Prop :=
  ∀ t ∈ rule, t.op.assigns = true → t.has f.target.key = false

variable {f : Field}

private theorem insertProperty_foldl {α : Type} (g : α → Text × Text) (l : List α)
    (d : RuleDevice) : (l.foldl (fun d p => d.insertProperty (g p)) d).field f = d.field f := by
  induction l generalizing d with
  | nil => rfl
  | cons p l ih => exact (ih _).trans (by cases f <;> rfl)

private theorem importValue_field (w : W) (d : RuleDevice) (ki : Option Text)
    (v : Text) : (importValue host w d ki v).1.field f = d.field f := by
  unfold importValue
  split_ifs
  · exact insertProperty_foldl id _ d
  · exact insertProperty_foldl _ _ d
  · rfl

private theorem assign_field (h : t.has f.target.key = false) (w : W)
    (d : RuleDevice) (v : Text) : (assign host w d t v).1.field f = d.field f := by
  have hne : t.target ≠ some f.target := by
    intro he
    have hf := find?_some he
    rw [h] at hf
    cases hf
  unfold assign
  split
  · cases t.attr <;> cases f <;> rfl
  case h_8 => exact importValue_field ..
  case h_9 =>
    split
    · exact importValue_field ..
    · split <;> rfl
  all_goals next ht => cases f <;> first | rfl | exact absurd ht hne

private theorem runTokens_field
    (hsp : Spares f rule) (h : runTokens host k rules rule (j, d, w) = some (j', d', w')) :
    d'.field f = d.field f := by
  induction rule generalizing j d w with
  | nil => cases h; rfl
  | cons t l ih =>
    obtain ⟨hc, hsp⟩ := forall_mem_cons.mp hsp
    rw [runTokens] at h
    split at h
    · exact ih hsp h
    next hop =>
      split at h
      · exact ih hsp h
      · obtain ⟨v, -, h⟩ := Option.bind_eq_some_iff.mp h
        exact (ih hsp h).trans (assign_field (hc (by simpa using hop)) w d v)

private theorem turn_field
    (hspares : ruleMatches host k s.world s.device rule = some true → Spares f rule)
    (h : turn host k rules s rule = some s') : s'.device.field f = s.device.field f := by
  obtain ⟨found, hfound, h⟩ := Option.bind_eq_some_iff.mp h
  cases found with
  | false =>
    cases h
    rfl
  | true =>
    obtain ⟨⟨jump, d, w⟩, hrun, rfl⟩ := Option.map_eq_some_iff.mp h
    exact runTokens_field (hspares hfound) hrun

def Outcome.machine : Outcome W → Option (Machine W)
  | .finished s | .running s => some s
  | .expanding => none

private theorem applyRules_field (n : Nat) (s : Machine W)
    (hspares : ∀ m < n, ∀ t, (applyRules host k rules m s).2 = .running t →
      ∀ rule ∈ rules[t.index]?,
        ruleMatches host k t.world t.device rule = some true → Spares f rule) :
    ∀ m ∈ (applyRules host k rules n s).2.machine, m.device.field f = s.device.field f := by
  fun_induction applyRules host k rules n s with
  | case1 | case2 => simp [Outcome.machine]
  | case3 => simp [Outcome.machine]
  | case4 n s rule hrule s' hturn rest ih =>
    intro m hm
    have hrest := ih (fun i hi t ht => hspares (i + 1) (Nat.succ_lt_succ hi) t
      ((running_succ hrule hturn i).trans ht)) m hm
    exact hrest.trans (turn_field (hspares 0 n.succ_pos s rfl rule hrule) hturn)

/-- A rule that matches makes a final assignment to the field, and the walk goes on from `s'`. -/
def Finalizes (host : Host W) (k : Nat) (rules : List Rule) (f : Field) (s s' : Machine W) :
    Prop :=
  ∃ rule, rules[s.index]? = some rule ∧ ruleMatches host k s.world s.device rule = some true ∧
    (∃ t ∈ rule, t.op = .final ∧ t.has f.target.key = true) ∧
    turn host k rules s rule = some s'

/-- The field stays as the rule left it while the rules that are visited and match do not assign to
it. -/
theorem final_field_kept (hfinal : Finalizes host k rules f s s') (n : Nat)
    (hspares : ∀ m < n, ∀ t, (applyRules host k rules m s').2 = .running t →
      ∀ rule ∈ rules[t.index]?,
        ruleMatches host k t.world t.device rule = some true → Spares f rule) :
    ∀ m ∈ (applyRules host k rules (n + 1) s).2.machine,
      m.device.field f = s'.device.field f := by
  obtain ⟨rule, hrule, -, -, hturn⟩ := hfinal
  intro m hm
  simp only [applyRules, hrule, hturn] at hm
  exact applyRules_field n s' hspares m hm

theorem final_owner_kept :
    (applyRules idleHost 1 [[token "OWNER" .final "a"], [token "TAG" .add "b"]] 3
      ⟨0, plainDevice "sda" "/b" [], ()⟩).2.machine.map (·.device.field .owner) =
        some (.text (some ['a'])) :=
  congrArg some (final_field_kept (show Finalizes idleHost 1
    [[token "OWNER" .final "a"], [token "TAG" .add "b"]] .owner ⟨0, plainDevice "sda" "/b" [], ()⟩
    ⟨1, { plainDevice "sda" "/b" [] with owner := some ['a'] }, ()⟩ from
      ⟨_, rfl, rfl, ⟨_, mem_cons_self, rfl, rfl⟩, rfl⟩) 2 (by
      intro m hm s hs rule hrule _ t ht _
      match m with
      | 0 =>
        cases hs
        cases hrule
        obtain rfl := mem_singleton.mp ht
        decide
      | 1 =>
        cases hs
        cases hrule) _ rfl)

/-- A later rule replaces an owner that was assigned as final. -/
theorem final_owner_replaced :
    (applyRules idleHost 1 [[token "OWNER" .final "a"], [token "OWNER" .assign "x"]] 3
      ⟨0, plainDevice "sda" "/b" [], ()⟩).2.machine.map (·.device.owner) =
        some (some ['x']) := by decide

end Rustd.Udev
