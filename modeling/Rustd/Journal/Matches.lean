import Rustd.Base.Run
import Rustd.Journal.Reader

/-!
# Match expressions

How `libs/journal/journal.c` builds a match expression, against what the calls mean: groups of
alternative terms, all of which have to hold. The matcher knows no groups: a match behind a
conjunction joins every term so far. That is the same as long as its field is a new one and no
disjunction follows.
-/

namespace Rustd.Journal

open Base List Option

section

inductive MatchCall where
  | addMatch (data : List UInt8)
  | addDisjunction
  | addConjunction
  deriving DecidableEq

/-- A reader with its flag `conjunction_all_terms`. -/
structure Matcher where
  reader : Reader := {}
  conjunctionAllTerms : Bool := false
  deriving DecidableEq

variable (data : List UInt8)

def fieldOf : List UInt8 := data.takeWhile (· != equals)

/-- The checks of a match. -/
def validMatch : Bool :=
  3 ≤ data.length && data.contains equals && fieldOf data != [] &&
    (fieldOf data).length != data.length - 1

namespace Matcher

variable (b : Matcher)

/-- Part of `reset_journal_position`, `libs/journal/journal.c:396`. -/
def reset : Matcher :=
  { b with reader := { b.reader with pathIndex := none, entry := none } }

/-- A valid match joins the list. -/
def appendMatch (data : List UInt8) (term : Nat) : Matcher :=
  { b with reader := { b.reader with
      matchList := b.reader.matchList ++ [⟨data, (fieldOf data).length, term⟩] } }

/-- The current term has a match. -/
def hasCurrent : Bool := b.reader.matchList.any (·.term == b.reader.matchTerm)

/-- A call that is refused changes nothing. -/
def call : MatchCall → Except Errno Matcher
  | .addMatch data =>
    if !validMatch data then .error .inval
    else if b.conjunctionAllTerms then
      .ok ((List.range (b.reader.matchTerm + 1)).foldl (appendMatch · data) b).reset
    else .ok (b.appendMatch data b.reader.matchTerm).reset
  | .addConjunction =>
    if b.reader.matchList = [] then .error .inval
    else .ok { b with conjunctionAllTerms := true }.reset
  | .addDisjunction =>
    if !b.hasCurrent then .error .inval
    else if b.reader.matchTerm = 2 ^ 32 - 1 then .error (.other 34)
    else .ok (reset
      { b with
        conjunctionAllTerms := false
        reader := { b.reader with matchTerm := b.reader.matchTerm + 1 } })

def step (c : MatchCall) : Matcher :=
  match b.call c with
  | .ok b => b
  | .error _ => b

end Matcher

end

section

/-- What calls mean: groups of terms, and the group and the term that are being built. -/
structure Expression where
  groups : List (List (List (List UInt8))) := []
  terms : List (List (List UInt8)) := []
  term : List (List UInt8) := []

namespace Expression

def all (e : Expression) : List (List (List UInt8)) := e.terms ++ [e.term]

def step (e : Expression) : MatchCall → Expression
  | .addMatch data => if validMatch data then { e with term := e.term ++ [data] } else e
  | .addDisjunction => if e.term = [] then e else { e with terms := e.all, term := [] }
  | .addConjunction => { groups := e.groups ++ [e.all] }

end Expression

variable (entry : List UInt8)

/-- The entry has one of the values given for every field of the term. -/
def TermHolds (term : List (List UInt8)) : Prop :=
  ∀ data ∈ term, ∃ other ∈ term, fieldOf other = fieldOf data ∧ other ∈ entry.splitOn newline

def GroupHolds (group : List (List (List UInt8))) : Prop :=
  (∀ term ∈ group, term = []) ∨ ∃ term ∈ group, term ≠ [] ∧ TermHolds entry term

/-- Some term of every group holds of the entry. -/
def Expression.Holds (e : Expression) (entry : List UInt8) : Prop :=
  ∀ group ∈ e.groups ++ [e.all], GroupHolds entry group

end

section

open Reader

def key (m : Match) : Nat × List UInt8 := (m.fieldLength, m.data.take m.fieldLength)

private theorem sameMatchField_iff (a b : Match) : sameMatchField a b = true ↔ key a = key b := by
  rw [sameMatchField, Bool.and_eq_true, beq_iff_eq, beq_iff_eq, key, key, Prod.mk.injEq]
  refine and_congr_right fun hln => ?_
  rw [hln]

variable {e : Expression} {b : Matcher} (terms : List (List (List UInt8))) (entry : List UInt8)

/-- Every field of a term is tested where it first occurs, against all matches of the term on it. -/
theorem termHolds_iff (se l : List Match) :
    termHolds entry se l = true ↔ ∀ m ∈ l, (∃ s ∈ se, key s = key m) ∨
      ∃ c ∈ l, key c = key m ∧ entryHasExactMatch entry c = true := by
  induction l generalizing se with
  | nil => simp [termHolds]
  | cons a l ih =>
    simp only [termHolds, Bool.and_eq_true, Bool.or_eq_true, List.any_eq_true, ih,
      sameMatchField_iff]
    constructor
    · rintro ⟨hfr, hrest⟩ m hm
      rcases mem_cons.mp hm with rfl | hm
      · exact hfr
      rcases hrest m hm with ⟨s, hs, hkey⟩ | ⟨c, hc, hfn⟩
      · rcases mem_append.mp hs with hs | hs
        · exact .inl ⟨s, hs, hkey⟩
        · obtain rfl := mem_singleton.mp hs
          rwa [← hkey]
      · exact .inr ⟨c, mem_cons_of_mem _ hc, hfn⟩
    · intro h
      refine ⟨h a mem_cons_self, fun m hm => ?_⟩
      rcases h m (mem_cons_of_mem _ hm) with ⟨s, hs, hkey⟩ | ⟨c, hc, hkey, hfn⟩
      · exact .inl ⟨s, mem_append_left _ hs, hkey⟩
      rcases mem_cons.mp hc with rfl | hc
      · exact .inl ⟨c, mem_append_right _ mem_cons_self, hkey⟩
      · exact .inr ⟨c, hc, hkey, hfn⟩

/-- The match that a datum becomes in a term. -/
def inTerm (t : Nat) (data : List UInt8) : Match := ⟨data, (fieldOf data).length, t⟩

private theorem key_inTerm (t t' : Nat) (data other : List UInt8) :
    key (inTerm t data) = key (inTerm t' other) ↔ fieldOf data = fieldOf other := by
  have hkey : ∀ t data, key (inTerm t data) = ((fieldOf data).length, fieldOf data) := by
    intro t data
    have hfield : fieldOf data <+: data := takeWhile_prefix _
    rw [key, inTerm, ← prefix_iff_eq_take.mp hfield]
  rw [hkey, hkey, Prod.mk.injEq]
  exact ⟨And.right, fun h => ⟨congrArg List.length h, h⟩⟩

/-- A list of matches with the members of a term holds when the term does. -/
theorem termHolds_of_mem
    (h : ∀ m, m ∈ ms ↔ ∃ data ∈ te, inTerm t data = m) :
    (ms = [] ↔ te = []) ∧ (termHolds entry [] ms = true ↔ TermHolds entry te) := by
  constructor
  · simp only [eq_nil_iff_forall_not_mem, h, not_exists, not_and]
    exact ⟨fun hnn data hda => hnn _ data hda rfl, fun hnn _ data hda => absurd hda (hnn data)⟩
  · simp only [termHolds_iff, h, forall_exists_index, and_imp, forall_apply_eq_imp_iff₂,
      exists_exists_and_eq_and, not_mem_nil, false_and, exists_false, false_or, key_inTerm,
      entryHasExactMatch, List.any_eq_true, beq_iff_eq, TermHolds]
    simp only [inTerm, exists_eq_right]

/-- The list of the matcher holds the matches of the terms, each with the number of its term, and
the last term is the current one. -/
structure Lists (b : Matcher) (terms : List (List (List UInt8))) : Prop where
  matchTerm : b.reader.matchTerm + 1 = terms.length
  mem_matchList : ∀ m, m ∈ b.reader.matchList ↔
    ∃ data ∈ terms.getD m.term [], inTerm m.term data = m

section

variable {terms : List (List (List UInt8))}

theorem Lists.mem_filter (h : Lists b terms) (t : Nat) (m : Match) :
    m ∈ b.reader.matchList.filter (·.term == t) ↔ ∃ data ∈ terms.getD t [], inTerm t data = m := by
  rw [List.mem_filter, h.mem_matchList, beq_iff_eq]
  constructor
  · rintro ⟨hm, rfl⟩
    exact hm
  · rintro ⟨data, hdata, rfl⟩
    exact ⟨⟨data, hdata, rfl⟩, rfl⟩

private theorem Lists.matchList_eq_nil (h : Lists b terms) :
    b.reader.matchList = [] ↔ ∀ term ∈ terms, term = [] := by
  simp only [eq_nil_iff_forall_not_mem, h.mem_matchList, not_exists, not_and]
  constructor
  · intro hnone term hterm data hdata
    obtain ⟨t, ht, rfl⟩ := mem_iff_getElem.mp hterm
    exact hnone (inTerm t data) data (by simpa [inTerm, ht] using hdata) rfl
  · intro hnone m data hdata
    by_cases hm : m.term < terms.length
    · exact absurd (by simpa [hm] using hdata) (hnone _ (getElem_mem hm) data)
    · simp [hm] at hdata

private theorem Lists.hasCurrent_iff (h : Lists b terms) :
    b.hasCurrent = true ↔ terms.getD b.reader.matchTerm [] ≠ [] := by
  rw [Matcher.hasCurrent, ← not_iff_not, Bool.not_eq_true, List.any_eq_false, not_not,
    ← (termHolds_of_mem [] (h.mem_filter b.reader.matchTerm)).1, filter_eq_nil_iff]

/-- An entry matches when one of the terms holds, or none has a match. -/
theorem Lists.matches_iff (h : Lists b terms) (entry : List UInt8) :
    b.reader.journalEntryMatches entry = true ↔ GroupHolds entry terms := by
  simp only [journalEntryMatches, Bool.or_eq_true, beq_iff_eq, List.any_eq_true, mem_range,
    Bool.and_eq_true, bne_iff_ne, ne_eq, h.matchList_eq_nil, h.matchTerm, GroupHolds,
    (termHolds_of_mem entry (h.mem_filter _)).1, (termHolds_of_mem entry (h.mem_filter _)).2]
  refine or_congr_right ⟨?_, ?_⟩
  · rintro ⟨t, ht, hterm⟩
    rw [getD_eq_getElem?_getD, getElem?_eq_getElem ht, getD_some] at hterm
    exact ⟨_, getElem_mem ht, hterm⟩
  · rintro ⟨term, hterm, hholds⟩
    obtain ⟨t, ht, rfl⟩ := mem_iff_getElem.mp hterm
    refine ⟨t, ht, ?_⟩
    rwa [getD_eq_getElem?_getD, getElem?_eq_getElem ht, getD_some]

private theorem appendMatch_foldl (data : List UInt8) (ts : List Nat) (b : Matcher) :
    ts.foldl (Matcher.appendMatch · data) b = { b with reader := { b.reader with
      matchList := b.reader.matchList ++ ts.map (inTerm · data) } } := by
  induction ts generalizing b with
  | nil => simp
  | cons t ts ih =>
    rw [foldl_cons, ih]
    simp [Matcher.appendMatch, inTerm]

/-- A match joins the terms of the numbers. -/
theorem Lists.append (h : Lists b terms) (data : List UInt8) (ts : List Nat)
    {terms' : List (List (List UInt8))} (hlength : terms'.length = terms.length)
    (hterms : ∀ t, terms'.getD t [] = terms.getD t [] ++ if t ∈ ts then [data] else []) :
    Lists (ts.foldl (Matcher.appendMatch · data) b).reset terms' := by
  rw [appendMatch_foldl]
  refine ⟨h.matchTerm.trans hlength.symm, fun m => ?_⟩
  simp only [Matcher.reset, mem_append, h.mem_matchList, List.mem_map, hterms]
  constructor
  · rintro (⟨other, hother, hm⟩ | ⟨t, ht, rfl⟩)
    · exact ⟨other, .inl hother, hm⟩
    · exact ⟨data, .inr (by simp [inTerm, ht]), rfl⟩
  · rintro ⟨other, hother | hother, hm⟩
    · exact .inl ⟨other, hother, hm⟩
    · split at hother
      next hmem =>
        obtain rfl := mem_singleton.mp hother
        exact .inr ⟨_, hmem, hm⟩
      next => cases hother

private theorem Lists.append_current (h : Lists b (terms ++ [term])) (data : List UInt8) :
    Lists (b.appendMatch data b.reader.matchTerm).reset (terms ++ [term ++ [data]]) := by
  have hnumber : b.reader.matchTerm = terms.length := by simpa using h.matchTerm
  refine h.append data [b.reader.matchTerm] (by simp) fun t => ?_
  simp only [hnumber, mem_singleton]
  rcases Nat.lt_trichotomy t terms.length with ht | rfl | ht
  · simp [getElem?_append_left ht, ht.ne]
  · simp
  · simp [ht.ne', getElem?_append_right ht.le, Nat.sub_ne_zero_of_lt ht]

private theorem Lists.append_all (h : Lists b terms) (data : List UInt8) :
    Lists ((range (b.reader.matchTerm + 1)).foldl (Matcher.appendMatch · data) b).reset
      (terms.map (· ++ [data])) := by
  refine h.append data _ (by simp) fun t => ?_
  simp only [h.matchTerm, mem_range]
  by_cases ht : t < terms.length
  · simp [ht]
  · simp [ht]

theorem Lists.congr {b' : Matcher} (h : Lists b terms)
    (hreader : b'.reader.matchTerm = b.reader.matchTerm ∧
      b'.reader.matchList = b.reader.matchList) : Lists b' terms :=
  ⟨hreader.1 ▸ h.matchTerm, hreader.2 ▸ h.mem_matchList⟩

theorem Lists.concat {b' : Matcher} (h : Lists b terms)
    (hreader : b'.reader.matchTerm = b.reader.matchTerm + 1 ∧
      b'.reader.matchList = b.reader.matchList) : Lists b' (terms ++ [[]]) := by
  refine ⟨by simp [hreader.1, h.matchTerm], fun m => ?_⟩
  have hterm : (terms ++ [[]]).getD m.term [] = terms.getD m.term [] := by
    rcases Nat.lt_or_ge m.term terms.length with hm | hm
    · rw [getD_eq_getElem?_getD, getElem?_append_left hm, getD_eq_getElem?_getD]
    · rw [getD_eq_getElem?_getD, getElem?_append_right hm, getD_eq_getElem?_getD,
        getElem?_eq_none hm]
      cases m.term - terms.length <;> rfl
  rw [hreader.2, h.mem_matchList, hterm]

end

/-! ### Conjunctions -/

private theorem termHolds_append {a c : List (List UInt8)}
    (h : ∀ data ∈ a, ∀ other ∈ c, fieldOf data ≠ fieldOf other) :
    TermHolds entry (a ++ c) ↔ TermHolds entry a ∧ TermHolds entry c := by
  simp only [TermHolds, mem_append]
  constructor
  · intro hboth
    refine ⟨fun data hdata => ?_, fun data hdata => ?_⟩
    · obtain ⟨other, hother | hother, hfield, hentry⟩ := hboth data (.inl hdata)
      · exact ⟨other, hother, hfield, hentry⟩
      · exact absurd hfield.symm (h data hdata other hother)
    · obtain ⟨other, hother | hother, hfield, hentry⟩ := hboth data (.inr hdata)
      · exact absurd hfield (h other hother data hdata)
      · exact ⟨other, hother, hfield, hentry⟩
  · rintro ⟨ha, hc⟩ data (hdata | hdata)
    · obtain ⟨other, hother, hrest⟩ := ha data hdata
      exact ⟨other, .inl hother, hrest⟩
    · obtain ⟨other, hother, hrest⟩ := hc data hdata
      exact ⟨other, .inr hother, hrest⟩

private theorem groupHolds_iff_exists {group : List (List (List UInt8))} (hgroup : group ≠ [])
    (h : ∀ term ∈ group, term ≠ []) :
    GroupHolds entry group ↔ ∃ term ∈ group, TermHolds entry term := by
  obtain ⟨term, hterm⟩ := exists_mem_of_ne_nil group hgroup
  rw [GroupHolds, or_iff_right fun hnil => h term hterm (hnil term hterm)]
  exact exists_congr fun term => and_congr_right fun hterm => and_iff_right (h term hterm)

private theorem groupHolds_singleton (term : List (List UInt8)) :
    GroupHolds entry [term] ↔ TermHolds entry term := by
  by_cases hterm : term = []
  · simp [GroupHolds, TermHolds, hterm]
  · simp [GroupHolds, hterm]

private theorem groupHolds_concat_nil (group : List (List (List UInt8))) :
    GroupHolds entry (group ++ [[]]) ↔ GroupHolds entry group := by
  simp [GroupHolds, or_imp]

/-- The matches of the groups before the one that is being built. -/
def Expression.earlier (e : Expression) : List (List UInt8) := e.groups.flatten.flatten

/-- A match that is added behind a conjunction is on a field that no group before has, and the
current term is not empty: no `add_disjunction` has opened it. -/
def Joins (s : Matcher × Expression) : MatchCall → Prop
  | .addMatch data => validMatch data = true → s.2.earlier = [] ∨
      s.1.hasCurrent = true ∧ ∀ other ∈ s.2.earlier, fieldOf other ≠ fieldOf data
  | _ => True

instance (s : Matcher × Expression) (c : MatchCall) : Decidable (Joins s c) := by
  cases c <;> unfold Joins <;> infer_instance

/-- The matcher and what was asked of it. -/
def both (s : Matcher × Expression) (c : MatchCall) : Matcher × Expression :=
  (s.1.step c, s.2.step c)

/-- The matcher and the meaning of the same calls. -/
inductive Builds (b : Matcher) (e : Expression) : Prop where
  /-- Before the first conjunction the terms are the same. -/
  | first (hearlier : e.earlier = []) (hflag : b.conjunctionAllTerms = false)
      (hterms : ∀ term ∈ e.terms, term ≠ []) (hlists : Lists b e.all)
  /-- Behind a conjunction the current group is one term, which stands in every term of the
  matcher. -/
  | joined (closed : List (List (List UInt8))) (hclosed : closed ≠ [])
      (hfilled : ∀ c ∈ closed, c ≠ []) (hflag : b.conjunctionAllTerms = true)
      (hterms : e.terms = []) (hlists : Lists b (closed.map (· ++ e.term)))
      (hapart : ∀ other ∈ e.earlier, ∀ data ∈ e.term, fieldOf other ≠ fieldOf data)
      (hearlier : ∀ c ∈ closed, ∀ data ∈ c, data ∈ e.earlier)
      (hgroups : ∀ entry, (∃ c ∈ closed, TermHolds entry c) ↔
        ∀ group ∈ e.groups, GroupHolds entry group)
  /-- The current term is empty, and no match may be added to it. -/
  | ended (terms : List (List (List UInt8))) (hearlier : e.earlier ≠ []) (hterm : e.term = [])
      (hlists : Lists b (terms ++ [[]]))
      (hholds : ∀ entry, GroupHolds entry terms ↔ e.Holds entry)

private theorem holds_iff (e : Expression) :
    e.Holds entry ↔ (∀ group ∈ e.groups, GroupHolds entry group) ∧ GroupHolds entry e.all := by
  simp [Expression.Holds, or_imp, forall_and]

private theorem groupHolds_of_earlier {e : Expression} (h : e.earlier = []) :
    ∀ group ∈ e.groups, GroupHolds entry group := by
  intro group hgroup
  refine .inl fun term hterm => eq_nil_iff_forall_not_mem.mpr fun data hdata => ?_
  have hmem : data ∈ e.earlier :=
    mem_flatten_of_mem (mem_flatten_of_mem hgroup hterm) hdata
  rw [h] at hmem
  cases hmem

private theorem exists_joined_iff {closed : List (List (List UInt8))} {term : List (List UInt8)}
    (h : ∀ c ∈ closed, ∀ other ∈ c, ∀ data ∈ term, fieldOf other ≠ fieldOf data) :
    (∃ c ∈ closed.map (· ++ term), TermHolds entry c) ↔
      (∃ c ∈ closed, TermHolds entry c) ∧ TermHolds entry term := by
  simp only [List.mem_map, exists_exists_and_eq_and]
  constructor
  · rintro ⟨c, hc, hholds⟩
    obtain ⟨hleft, hright⟩ := (termHolds_append entry (h c hc)).mp hholds
    exact ⟨⟨c, hc, hleft⟩, hright⟩
  · rintro ⟨⟨c, hc, hleft⟩, hright⟩
    exact ⟨c, hc, (termHolds_append entry (h c hc)).mpr ⟨hleft, hright⟩⟩

private theorem earlier_ne_nil {closed : List (List (List UInt8))} (hclosed : closed ≠ [])
    (hfilled : ∀ c ∈ closed, c ≠ []) (hearlier : ∀ c ∈ closed, ∀ data ∈ c, data ∈ e.earlier) :
    e.earlier ≠ [] := by
  obtain ⟨c, hc⟩ := exists_mem_of_ne_nil closed hclosed
  obtain ⟨data, hdata⟩ := exists_mem_of_ne_nil c (hfilled c hc)
  exact ne_nil_of_mem (hearlier c hc data hdata)

private theorem joined_filled {closed : List (List (List UInt8))} {term : List (List UInt8)}
    (h : ∀ c ∈ closed, c ≠ []) : ∀ c ∈ closed.map (· ++ term), c ≠ [] := by
  intro joined hjoined
  obtain ⟨c, hc, rfl⟩ := List.mem_map.mp hjoined
  exact append_ne_nil_of_left_ne_nil (h c hc) _

private theorem Builds.matches_iff (h : Builds b e) (entry : List UInt8) :
    b.reader.journalEntryMatches entry = true ↔ e.Holds entry := by
  cases h with
  | first hearlier hflag hterms hlists =>
    rw [hlists.matches_iff, holds_iff, and_iff_right (groupHolds_of_earlier entry hearlier)]
  | joined closed hclosed hfilled hflag hterms hlists hapart hearlier hgroups =>
    have hall : e.all = [e.term] := by simp [Expression.all, hterms]
    rw [hlists.matches_iff, holds_iff, ← hgroups, hall, groupHolds_singleton,
      groupHolds_iff_exists entry (by simpa using hclosed) (joined_filled hfilled)]
    exact exists_joined_iff entry fun c hc other hother => hapart other (hearlier c hc other hother)
  | ended terms hearlier hterm hlists hholds =>
    rw [hlists.matches_iff, groupHolds_concat_nil, hholds]

private theorem earlier_conjunction (e : Expression) :
    (e.step .addConjunction).earlier = e.earlier ++ e.all.flatten := by
  simp [Expression.step, Expression.earlier]

private theorem holds_conjunction (e : Expression) :
    (e.step .addConjunction).Holds entry ↔ e.Holds entry := by
  rw [holds_iff, Expression.Holds]
  refine and_iff_left ?_
  exact (groupHolds_singleton entry []).mpr (by simp [TermHolds])

private theorem holds_disjunction (e : Expression) :
    (e.step .addDisjunction).Holds entry ↔ e.Holds entry := by
  unfold Expression.step
  dsimp only
  split
  · exact Iff.rfl
  · rw [holds_iff, holds_iff]
    exact and_congr_right fun _ => groupHolds_concat_nil entry e.all

private theorem Matcher.step_conjunction (b : Matcher) :
    (b.step .addConjunction).reader.matchTerm = b.reader.matchTerm ∧
      (b.step .addConjunction).reader.matchList = b.reader.matchList ∧
      (b.step .addConjunction).conjunctionAllTerms =
        (b.conjunctionAllTerms || b.reader.matchList != []) := by
  by_cases hlist : b.reader.matchList = []
  · simp [Matcher.step, Matcher.call, hlist]
  · simp [Matcher.step, Matcher.call, hlist, Matcher.reset]

private theorem Matcher.step_disjunction (hcurrent : b.hasCurrent = true)
    (hsmall : b.reader.matchTerm < 2 ^ 32 - 1) :
    (b.step .addDisjunction).reader.matchTerm = b.reader.matchTerm + 1 ∧
      (b.step .addDisjunction).reader.matchList = b.reader.matchList ∧
      (b.step .addDisjunction).conjunctionAllTerms = false := by
  have hterm : b.reader.matchTerm ≠ 2 ^ 32 - 1 := hsmall.ne
  simp only [Matcher.step, Matcher.call, hcurrent, hterm, Bool.not_true, Bool.false_eq_true,
    if_false, Matcher.reset, and_self]

private theorem Builds.conjunction (h : Builds b e) :
    Builds (b.step .addConjunction) (e.step .addConjunction) := by
  obtain ⟨hterm', hlist', hflag'⟩ := b.step_conjunction
  have hholds' := fun entry => (h.matches_iff entry).trans (holds_conjunction entry e).symm
  cases h with
  | first hearlier hflag hterms hlists =>
    by_cases hempty : ∀ term ∈ e.all, term = []
    · -- the call is refused, and the group has no match
      have hnone : e.terms = [] := eq_nil_iff_forall_not_mem.mpr fun term hterm =>
        hterms term hterm (hempty term (mem_append_left _ hterm))
      have hall : e.all = [[]] := by
        rw [Expression.all, hnone, hempty e.term (mem_append_right _ mem_cons_self), nil_append]
      refine .first ?_ ?_ (by simp [Expression.step]) ?_
      · rw [earlier_conjunction, hearlier, hall]
        rfl
      · rw [hflag', hflag, hlists.matchList_eq_nil.mpr hempty]
        rfl
      · exact (hall ▸ hlists).congr ⟨hterm', hlist'⟩
    have hearlier' : (e.step .addConjunction).earlier = e.all.flatten := by
      rw [earlier_conjunction, hearlier, nil_append]
    by_cases hterm : e.term = []
    · refine .ended e.terms ?_ rfl (hterm ▸ hlists.congr ⟨hterm', hlist'⟩) fun entry => ?_
      · rw [hearlier']
        exact fun hnil => hempty (flatten_eq_nil_iff.mp hnil)
      · rw [← hholds', hlists.matches_iff, Expression.all, hterm, groupHolds_concat_nil]
    · have hfilled : ∀ c ∈ e.all, c ≠ [] := by
        simpa [Expression.all, or_imp, forall_and] using ⟨hterms, hterm⟩
      refine .joined e.all (by simp [Expression.all]) hfilled ?_ rfl ?_ (by simp [Expression.step])
        ?_ fun entry => ?_
      · rw [hflag', bne_iff_ne.mpr (mt hlists.matchList_eq_nil.mp hempty), Bool.or_true]
      · simpa [Expression.step] using hlists.congr ⟨hterm', hlist'⟩
      · rw [hearlier']
        exact fun c hc data hdata => mem_flatten_of_mem hc hdata
      · rw [← groupHolds_iff_exists entry (by simp [Expression.all]) hfilled]
        have hgroups := groupHolds_of_earlier entry hearlier
        simpa [Expression.step, or_imp, forall_and] using fun _ => hgroups
  | joined closed hclosed hfilled hflag hterms hlists hapart hearlier hgroups =>
    have hall : e.all = [e.term] := by simp [Expression.all, hterms]
    refine .joined (closed.map (· ++ e.term)) (by simpa using hclosed) (joined_filled hfilled) ?_
      rfl ?_ (by simp [Expression.step]) ?_ fun entry => ?_
    · rw [hflag', hflag, Bool.true_or]
    · simpa [Expression.step, Function.comp_def] using hlists.congr ⟨hterm', hlist'⟩
    · rw [earlier_conjunction, hall]
      intro joined hjoined data hdata
      obtain ⟨c, hc, rfl⟩ := List.mem_map.mp hjoined
      rcases mem_append.mp hdata with hdata | hdata
      · exact mem_append_left _ (hearlier c hc data hdata)
      · exact mem_append_right _ (by simpa using hdata)
    · rw [exists_joined_iff entry
        fun c hc other hother => hapart other (hearlier c hc other hother)]
      rw [hgroups]
      simp [Expression.step, or_imp, forall_and, hall, groupHolds_singleton]
  | ended terms hearlier hterm hlists hholds =>
    refine .ended terms ?_ rfl (hlists.congr ⟨hterm', hlist'⟩) fun entry => ?_
    · rw [earlier_conjunction]
      exact append_ne_nil_of_left_ne_nil hearlier _
    · rw [hholds, holds_conjunction]

private theorem step_disjunction (e : Expression) :
    (e.step .addDisjunction).earlier = e.earlier ∧ (e.step .addDisjunction).term = [] := by
  by_cases hterm : e.term = [] <;> simp [Expression.step, Expression.earlier, hterm]

private theorem Builds.disjunction (h : Builds b e) (hsmall : b.reader.matchTerm < 2 ^ 32 - 1) :
    Builds (b.step .addDisjunction) (e.step .addDisjunction) := by
  have hrefused : b.hasCurrent = false → e.term = [] →
      Builds (b.step .addDisjunction) (e.step .addDisjunction) := by
    intro hcurrent hterm
    simpa [Matcher.step, Matcher.call, Expression.step, hcurrent, hterm] using h
  have hholds' := fun entry => (h.matches_iff entry).trans (holds_disjunction entry e).symm
  cases h with
  | first hearlier hflag hterms hlists =>
    have hcurrent : b.hasCurrent = true ↔ e.term ≠ [] := by
      have hnumber : b.reader.matchTerm = e.terms.length := by
        simpa [Expression.all] using hlists.matchTerm
      rw [hlists.hasCurrent_iff, hnumber]
      simp [Expression.all]
    by_cases hterm : e.term = []
    · exact hrefused (Bool.eq_false_iff.mpr fun htrue => hcurrent.mp htrue hterm) hterm
    obtain ⟨hterm', hlist', hflag'⟩ := Matcher.step_disjunction (hcurrent.mpr hterm) hsmall
    have hstep : e.step .addDisjunction = { e with terms := e.all, term := [] } := by
      simp [Expression.step, hterm]
    rw [hstep]
    refine .first hearlier hflag' ?_ (hlists.concat ⟨hterm', hlist'⟩)
    simpa [Expression.all, or_imp, forall_and] using ⟨hterms, hterm⟩
  | joined closed hclosed hfilled hflag hterms hlists hapart hearlier hgroups =>
    have hcurrent : b.hasCurrent = true := by
      have hlt : b.reader.matchTerm < (closed.map (· ++ e.term)).length :=
        hlists.matchTerm ▸ Nat.lt_succ_self _
      rw [hlists.hasCurrent_iff, getD_eq_getElem _ _ hlt]
      exact joined_filled hfilled _ (getElem_mem hlt)
    obtain ⟨hterm', hlist', hflag'⟩ := Matcher.step_disjunction hcurrent hsmall
    refine .ended _ ?_ ?_ (hlists.concat ⟨hterm', hlist'⟩) fun entry => ?_
    · rw [(step_disjunction e).1]
      exact earlier_ne_nil hclosed hfilled hearlier
    · exact (step_disjunction e).2
    · rw [← hholds', hlists.matches_iff]
  | ended terms hearlier hterm hlists hholds =>
    refine hrefused ?_ hterm
    have hnumber : b.reader.matchTerm = terms.length := by simpa using hlists.matchTerm
    rw [← Bool.not_eq_true, hlists.hasCurrent_iff, hnumber]
    simp

private theorem Builds.addMatch (h : Builds b e) (data : List UInt8)
    (hjoins : Joins (b, e) (.addMatch data)) :
    Builds (b.step (.addMatch data)) (e.step (.addMatch data)) := by
  cases hvalid : validMatch data with
  | false => simpa [Matcher.step, Matcher.call, Expression.step, hvalid] using h
  | true =>
    have hstep : e.step (.addMatch data) = { e with term := e.term ++ [data] } := by
      simp [Expression.step, hvalid]
    rw [hstep]
    cases h with
    | first hearlier hflag hterms hlists =>
      have hb : b.step (.addMatch data) = (b.appendMatch data b.reader.matchTerm).reset := by
        simp [Matcher.step, Matcher.call, hvalid, hflag]
      rw [hb]
      exact .first hearlier hflag hterms (hlists.append_current data)
    | joined closed hclosed hfilled hflag hterms hlists hapart hearlier hgroups =>
      have hb : b.step (.addMatch data) =
          ((range (b.reader.matchTerm + 1)).foldl (Matcher.appendMatch · data) b).reset := by
        simp [Matcher.step, Matcher.call, hvalid, hflag]
      have hfresh : ∀ other ∈ e.earlier, fieldOf other ≠ fieldOf data := by
        rcases hjoins hvalid with hnone | ⟨-, hfresh⟩
        · exact absurd hnone (earlier_ne_nil hclosed hfilled hearlier)
        · exact hfresh
      rw [hb]
      refine .joined closed hclosed hfilled ?_ hterms ?_ ?_ hearlier hgroups
      · rw [appendMatch_foldl]
        exact hflag
      · simpa [Function.comp_def] using hlists.append_all data
      · intro other hother d hd
        rcases mem_append.mp hd with hd | hd
        · exact hapart other hother d hd
        · obtain rfl := mem_singleton.mp hd
          exact hfresh other hother
    | ended terms hearlier hterm hlists hholds =>
      rcases hjoins hvalid with hnone | ⟨hcurrent, -⟩
      · exact absurd hnone hearlier
      · have hnumber : b.reader.matchTerm = terms.length := by simpa using hlists.matchTerm
        rw [hlists.hasCurrent_iff, hnumber] at hcurrent
        simp at hcurrent

theorem Builds.step (h : Builds b e) (c : MatchCall) (hjoins : Joins (b, e) c)
    (hsmall : b.reader.matchTerm < 2 ^ 32 - 1) : Builds (b.step c) (e.step c) := by
  cases c with
  | addMatch data => exact h.addMatch data hjoins
  | addDisjunction => exact h.disjunction hsmall
  | addConjunction => exact h.conjunction

private theorem Matcher.matchTerm_step_le (b : Matcher) (c : MatchCall) :
    (b.step c).reader.matchTerm ≤ b.reader.matchTerm + 1 := by
  cases c with
  | addMatch data =>
    simp only [Matcher.step, Matcher.call]
    split_ifs
    · exact Nat.le_succ _
    · rw [appendMatch_foldl]
      exact Nat.le_succ _
    · exact Nat.le_succ _
  | addDisjunction =>
    simp only [Matcher.step, Matcher.call]
    split_ifs
    · exact Nat.le_succ _
    · exact Nat.le_succ _
    · exact le_rfl
  | addConjunction => exact b.step_conjunction.1.le.trans (Nat.le_succ _)

theorem Builds.run (h : Builds b e) (calls : List MatchCall)
    (hcalls : AllSteps both Joins (b, e) calls)
    (hsmall : b.reader.matchTerm + calls.length < 2 ^ 32) :
    Builds (run Matcher.step b calls) (run Expression.step e calls) := by
  induction calls generalizing b e with
  | nil => exact h
  | cons c calls ih =>
    obtain ⟨hjoins, hcalls⟩ := hcalls
    have hle := b.matchTerm_step_le c
    rw [length_cons] at hsmall
    exact ih (h.step c hjoins (by omega)) hcalls (by omega)

/-- An entry matches exactly when the expression that the calls describe holds for it, where every
match behind a conjunction joins the terms before it on a field of its own. -/
theorem match_expression_holds (calls : List MatchCall) (entry : List UInt8)
    (hcalls : AllSteps both Joins ({}, {}) calls) (hsmall : calls.length < 2 ^ 32) :
    (run Matcher.step {} calls).reader.journalEntryMatches entry = true ↔
      (run Expression.step {} calls).Holds entry := by
  have hstart : Builds {} {} :=
    .first rfl rfl (by simp) ⟨rfl, by simp [Expression.all]⟩
  exact (hstart.run calls hcalls (by simpa using hsmall)).matches_iff entry

/-- `(A=1 or B=1) and (C=1 or C=2) and D=1`. The first call is refused, and the last opens a term
that stays empty. -/
def someCalls : List MatchCall :=
  [.addConjunction, .addMatch (ascii "A=1"), .addDisjunction, .addMatch (ascii "B=1"),
    .addConjunction, .addMatch (ascii "C=1"), .addMatch (ascii "C=2"), .addConjunction,
    .addMatch (ascii "D=1"), .addDisjunction]

instance (entry : List UInt8) (e : Expression) : Decidable (e.Holds entry) := by
  unfold Expression.Holds GroupHolds TermHolds
  infer_instance

theorem match_expression_conjunction :
    (run Matcher.step {} someCalls).reader.journalEntryMatches (ascii "B=1\nC=2\nD=1") = true ∧
      (run Expression.step {} someCalls).Holds (ascii "B=1\nC=2\nD=1") := by
  have hentry : (run Matcher.step {} someCalls).reader.journalEntryMatches
      (ascii "B=1\nC=2\nD=1") = true := by decide +kernel
  exact ⟨hentry, (match_expression_holds someCalls _ (by decide +kernel) (by decide)).mp hentry⟩

/-- An entry with `D=4` only passes for `(A=1 or B=2) and (C=3 or D=4)`, and one with `A=2` only for
the conjunction of `A=1` and `A=2`. -/
theorem match_conjunctions_lost :
    ((run Matcher.step {} [.addMatch (ascii "A=1"), .addDisjunction, .addMatch (ascii "B=2"),
        .addConjunction, .addMatch (ascii "C=3"), .addDisjunction,
        .addMatch (ascii "D=4")]).reader.journalEntryMatches (ascii "D=4") = true ∧
      ¬ (run Expression.step {} [.addMatch (ascii "A=1"), .addDisjunction, .addMatch (ascii "B=2"),
        .addConjunction, .addMatch (ascii "C=3"), .addDisjunction,
        .addMatch (ascii "D=4")]).Holds (ascii "D=4")) ∧
    (run Matcher.step {} [.addMatch (ascii "A=1"), .addConjunction,
        .addMatch (ascii "A=2")]).reader.journalEntryMatches (ascii "A=2") = true ∧
      ¬ (run Expression.step {} [.addMatch (ascii "A=1"), .addConjunction,
        .addMatch (ascii "A=2")]).Holds (ascii "A=2") := by
  decide +kernel

end

end Rustd.Journal
