import Rustd.Base.Run
import Rustd.Glob

/-!
# Versions

`src/unit/condition.rs`: versions are compared token by token. A version without its further tokens
is less, and a text is less than a number. The order of tokens is total, and so is the order of
versions, which makes the operators of version conditions consistent.
-/

namespace Rustd.Unit

open Base Std List

/-- `VersionToken` of `src/unit/condition.rs:914`. -/
inductive VersionToken where
  | number (n : Nat)
  | text (letters : List Char)
  deriving DecidableEq

/-- The variables of the loop of `version_tokens`. -/
structure TokenState where
  output : List VersionToken
  current : List Char
  numeric : Option Bool

/-- `flush_version_token`. A number that is too large becomes the
largest one. -/
def TokenState.flush (s : TokenState) : TokenState :=
  if s.current.isEmpty then s
  else
    let token := if s.numeric = some true then
        .number ((parseUnsigned (2 ^ 128) s.current).getD (2 ^ 128 - 1))
      else .text s.current
    { s with output := s.output ++ [token], current := [] }

/-- Part of `version_tokens`, `src/unit/condition.rs:919`. -/
def TokenState.step (s : TokenState) (c : Char) : TokenState :=
  if !c.isAlphanum then { s.flush with numeric := none }
  else
    let s := if s.numeric.any (· != c.isDigit) then s.flush else s
    { s with numeric := some c.isDigit, current := s.current ++ [c.toLower] }

/-- `version_tokens` of `src/unit/condition.rs:919`. -/
def versionTokens (value : List Char) : List VersionToken :=
  (run TokenState.step ⟨[], [], none⟩ value).flush.output

/-- The comparison of two tokens. -/
def VersionToken.cmp : VersionToken → VersionToken → Ordering
  | .number a, .number b => compare a b
  | .text a, .text b => compare a b
  | .number _, .text _ => .gt
  | .text _, .number _ => .lt

/-- The loop of `version_cmp`. -/
def cmpTokens : List VersionToken → List VersionToken → Ordering
  | [], [] => .eq
  | _ :: _, [] => .gt
  | [], _ :: _ => .lt
  | a :: left, b :: right => if a.cmp b ≠ .eq then a.cmp b else cmpTokens left right

/-- `version_cmp` of `src/unit/condition.rs:883`. -/
def versionCmp (left right : List Char) : Ordering :=
  cmpTokens (versionTokens left) (versionTokens right)

/-- `CompareOp` of `src/unit/condition.rs:808`. -/
inductive CompareOp where
  | equal | notEqual | less | lessOrEqual | greater | greaterOrEqual | pattern
  deriving DecidableEq

/-- `compare_order` of `src/unit/condition.rs:836`. -/
def compareOrder (ordering : Ordering) : CompareOp → Bool
  | .equal => ordering == .eq
  | .notEqual => ordering != .eq
  | .less => ordering == .lt
  | .lessOrEqual => ordering != .gt
  | .greater => ordering == .gt
  | .greaterOrEqual => ordering != .lt
  | .pattern => false

/-- `has_glob_magic` of `src/unit/condition.rs:879`. -/
def hasGlobMagic (value : List Char) : Bool := value.any fun c => c == '*' || c == '?' || c == '['

/-- `compare_strings` of `src/unit/condition.rs:848`. -/
def compareStrings (actual expected : List Char) (operator : CompareOp) : Bool :=
  if (operator = .equal || operator = .notEqual) && hasGlobMagic expected then
    let matched := Glob.globMatchBytes (utf8 expected) (utf8 actual)
    if operator = .notEqual then !matched else matched
  else compareOrder (versionCmp actual expected) operator

instance : TransCmp VersionToken.cmp where
  eq_swap {a b} := by
    cases a <;> cases b <;> simp only [VersionToken.cmp, Ordering.swap]
    · exact OrientedCmp.eq_swap
    · exact OrientedCmp.eq_swap
  isLE_trans {a b c} := by
    cases a <;> cases b <;> cases c <;>
      simp only [VersionToken.cmp, Ordering.isLE, Bool.false_eq_true, false_implies, implies_true]
    · exact TransCmp.isLE_trans
    · exact TransCmp.isLE_trans

private theorem cmpTokens_eq (left right : List VersionToken) :
    cmpTokens left right = List.compareLex VersionToken.cmp left right := by
  fun_induction cmpTokens left right with
  | case1 | case2 | case3 => rfl
  | case4 a left b right hne =>
    rw [List.compareLex_cons_cons]
    cases h : a.cmp b <;> simp_all
  | case5 a left b right heq ih =>
    rw [List.compareLex_cons_cons, ih, not_not.mp heq, Ordering.eq_then]

instance : TransCmp versionCmp where
  eq_swap {a b} := by
    simp only [versionCmp, cmpTokens_eq]
    exact OrientedCmp.eq_swap
  isLE_trans {a b c} := by
    simp only [versionCmp, cmpTokens_eq]
    exact TransCmp.isLE_trans

/-- The operators of version conditions order three versions consistently. -/
structure ConsistentOn (holds : List Char → CompareOp → List Char → Prop) (a b c : List Char) :
    Prop where
  lessOrEqual : holds a .lessOrEqual b ↔ holds a .less b ∨ holds a .equal b
  greaterOrEqual : holds a .greaterOrEqual b ↔ holds a .greater b ∨ holds a .equal b
  notEqual : holds a .notEqual b ↔ ¬holds a .equal b
  total : holds a .less b ∨ holds a .equal b ∨ holds a .greater b
  less : holds a .less b → ¬holds a .greaterOrEqual b
  greater : holds a .greater b ↔ holds b .less a
  equal : holds a .equal b ↔ holds b .equal a
  trans : holds a .lessOrEqual b → holds b .lessOrEqual c → holds a .lessOrEqual c
  trans_less : holds a .less b → holds b .lessOrEqual c → holds a .less c
  less_trans : holds a .lessOrEqual b → holds b .less c → holds a .less c

/-- The comparison of versions is a total preorder of all texts, on which the operators are
consistent. A condition asks for this order, except where `=` or `!=` is given a pattern. -/
theorem version_order_consistent (a b c : List Char) :
    versionCmp a a = .eq ∧ versionCmp b a = (versionCmp a b).swap ∧
    ((versionCmp a b).isLE → (versionCmp b c).isLE → (versionCmp a c).isLE) ∧
    ConsistentOn (fun left operator right => compareOrder (versionCmp left right) operator) a b c ∧
    ∀ operator, (hasGlobMagic b = true → operator ≠ .equal ∧ operator ≠ .notEqual) →
      compareStrings a b operator = compareOrder (versionCmp a b) operator := by
  have hsw : versionCmp b a = (versionCmp a b).swap := OrientedCmp.eq_swap
  have htr : (versionCmp a b).isLE → (versionCmp b c).isLE → (versionCmp a c).isLE :=
    TransCmp.isLE_trans
  have hlss : versionCmp a b = .lt → (versionCmp b c).isLE → versionCmp a c = .lt :=
    TransCmp.lt_of_lt_of_isLE
  have hlss' : (versionCmp a b).isLE → versionCmp b c = .lt → versionCmp a c = .lt :=
    TransCmp.lt_of_isLE_of_lt
  refine ⟨ReflCmp.compare_self, hsw, htr, ?_, fun operator hop => ?_⟩
  · constructor
    all_goals
      simp only [hsw, compareOrder]
      revert htr hlss hlss'
      cases versionCmp a b <;> cases versionCmp b c <;> cases versionCmp a c <;> decide
  · cases hma : hasGlobMagic b with
    | false => rw [compareStrings, hma, Bool.and_false, if_neg Bool.false_ne_true]
    | true =>
      obtain ⟨heq, h⟩ := hop hma
      rw [compareStrings, decide_eq_false heq, decide_eq_false h, Bool.or_self,
        Bool.false_and, if_neg Bool.false_ne_true]

end Rustd.Unit
